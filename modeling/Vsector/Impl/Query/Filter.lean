import Vsector.Impl.Index.Ann
import Vsector.Impl.Models.PyValue

/-!
# Filters

`_parse_filter` of `query/engine.py` and `_matches_filter` of
`ingest/service.py`, which do not agree. Both go through the filter's fields
in order and stop at the first that is not met; a comparison may raise.
-/

namespace Vsector.Query

open Models Index

variable (X : Externals)

/-- A filter: a `dict`. -/
abbrev Filter := List (String × Json)

/-- `md.get(key)`. -/
def field (md : Metadata) (key : String) : Json := (md.lookup key).getD .null

/-- Every field is met, one after the other. -/
def allFields (met : String → Json → Except Exc Bool) : Filter → Except Exc Bool
  | [] => .ok true
  | (key, cond) :: fields =>
    match met key cond with
    | .error e => .error e
    | .ok false => .ok false
    | .ok true => allFields met fields

/-! ## Queries -/

/-- The tags `_parse_filter` compares. -/
def queryTags (md : Metadata) : List Json :=
  match field md "tags" with
  | .arr tags => tags
  | val =>
    if truthy val then [val]
    else
      match field md "_tags" with
      | .arr tags => tags
      | other => if truthy other then [other] else []

/-- The body of `_parse_filter`'s loop. -/
def fieldMet (md : Metadata) (key : String) (cond : Json) : Except Exc Bool :=
  let val := field md key
  match cond with
  | .obj ops =>
    match ops.lookup "$in", ops.lookup "$gte", ops.lookup "$eq", ops.lookup "$in_tags" with
    | some needle, _, _, _ =>
      if key = "tags" then Json.pyAny (·.pyIn needle) (queryTags md) else val.pyIn needle
    | none, some bound, _, _ =>
      .ok (match val with
        | .null => false
        | val => !decide (val.pyStr X < bound.pyStr X))
    | none, none, some other, _ => .ok (val.pyEq other)
    | none, none, none, some needle =>
      match ((md.lookup "tags").getD (.arr [])).pyIter with
      | .error e => .error e
      | .ok tags => Json.pyAny (·.pyIn needle) tags
    | none, none, none, none => .ok (val.pyEq cond)
  | _ => .ok (val.pyEq cond)

/-- `_parse_filter`. -/
def parseFilter (md : Metadata) (filters : Filter) : Except Exc Bool :=
  allFields (fieldMet X md) filters

/-! ## Deletions -/

/-- The body of `_matches_filter`'s loop. -/
def fieldMatches (md : Metadata) (key : String) (cond : Json) : Except Exc Bool :=
  let val := field md key
  let tags := (md.lookup "tags").getD (.arr [])
  match cond with
  | .obj ops =>
    match ops.lookup "$in", ops.lookup "$gte", ops.lookup "$eq" with
    | some needle, _, _ =>
      match val.pyIn needle with
      | .error e => .error e
      | .ok true => .ok true
      | .ok false =>
        if key.toList <:+: (tags.pyStr X).toList then .ok true
        else if key = "tags" then
          match tags.pyIter with
          | .error e => .error e
          | .ok tags => Json.pyAny (·.pyIn needle) tags
        else .ok false
    | none, some bound, _ => (((md.lookup key).getD (.str "")).pyLt bound).map (!·)
    | none, none, some other => .ok (val.pyEq other)
    | none, none, none => .ok true
  | _ => .ok (val.pyEq cond)

/-- `_matches_filter`. -/
def matchesFilter (md : Metadata) (filters : Filter) : Except Exc Bool :=
  allFields (fieldMatches X md) filters

end Vsector.Query
