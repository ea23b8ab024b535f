import VectorDbBenchmark.Chroma.Filter
import VectorDbBenchmark.Kividb.Filter

/-!
# The Valkey filter builder

`parse_conditions` of the Valkey engine, which inlines all values: the server takes no
parameters within braces and brackets.  The counter that keeps parameter names apart is passed
along all the same.  The texts of the clauses are those of the KiviDB builder.
-/

namespace VectorDbBenchmark.Valkey

open Kit Redis
open Kividb (BoundKey boundKeys tagText intervalText parens)

/-- A filter and its parameters. -/
abbrev ParsedFilter := Text × Params

/-! ## Leaves -/

/-- A backslash before the characters that would end a tag. -/
def escapeTagValue (s : Text) : Text :=
  replaceChar '\x7d' ['\\', '\x7d'] (replaceChar '\x7b' ['\\', '\x7b']
    (replaceChar '|' ['\\', '|'] (replaceChar '\\' ['\\', '\\'] s)))

/-- A clause and its negation. -/
def neverMatch (field word : String) : Text :=
  parens (tagText field word.toList ++ ' ' :: '-' :: tagText field word.toList)

def buildMatchAnyFilter (field : String) (any : List Json) (counter : ℕ) : ParsedFilter × ℕ :=
  if !any.isEmpty && any.all (fun v ↦ v.asI64.isSome) then
    let ints := any.filterMap Json.asI64
    let clauses := ints.map fun i ↦ intervalText field (intText i) (intText i)
    ((parens ([' ', '|', ' '].intercalate clauses), []), counter + ints.length)
  else
    let tokens := ((any.filterMap Json.asStr).filter fun s ↦ !s.isEmpty).map fun s ↦
      escapeTagValue s.toList
    if tokens.isEmpty then ((neverMatch field "__match_any_never_match__", []), counter)
    else ((tagText field ([' ', '|', ' '].intercalate tokens), []), counter)

section Leaves

variable (env : NumberEnv) (field : String)

/-- The numeral of a number, of a datetime, or of a numeric string. -/
def numberLiteral (value : Json) : Option Text :=
  match value.asI64 with
  | some i => some (intText i)
  | none =>
    match value.asF64 with
    | some f => some f.display
    | none =>
      match value.asStr with
      | none => none
      | some s =>
        match env.datetimeToEpochSecs s with
        | some epoch => some (intText epoch)
        | none => if (env.parseF64 s).isSome then some s.toList else none

def buildExactMatchFilter (criteria : Json) (counter : ℕ) : Option ParsedFilter × ℕ :=
  match criteria.get "value" with
  | none => (none, counter)
  | some value =>
    let filter : Option ParsedFilter :=
      match value.asBool with
      | some b => some (tagText field (if b then "true".toList else "false".toList), [])
      | none =>
        match value.asStr with
        | some s => some (tagText field (escapeTagValue s.toList), [])
        | none => (numberLiteral env value).map fun lit ↦ (intervalText field lit lit, [])
    (filter, counter + 1)

def buildTextFilter (text : String) : ParsedFilter :=
  let trimmed := trim text.toList
  if trimmed.isEmpty then (neverMatch field "__text_never_match__", [])
  else
    let term := ((trimmed.splitOnP isWhiteSpace).find? fun w ↦ !w.isEmpty).getD trimmed
    (tagText field (escapeTagValue term), [])

/-- `@f:[-inf v]` or `@f:[v +inf]`, with a parenthesis before an exclusive bound. -/
def boundText (k : BoundKey) (v : Text) : Text :=
  let bound := if k.exclusive then '(' :: v else v
  if k.isUpper then intervalText field "-inf".toList bound
  else intervalText field bound "+inf".toList

def buildRangeFilter (criteria : Json) (counter : ℕ) : Option ParsedFilter × ℕ :=
  let clauses := boundKeys.filterMap fun k ↦
    ((criteria.get k.key).bind (numberLiteral env)).map (boundText field k)
  (if clauses.isEmpty then none else some ([' '].intercalate clauses, []), counter + 1)

def buildGeoFilter (criteria : Json) (counter : ℕ) : Option ParsedFilter × ℕ :=
  let (filter, counter) := Redis.buildGeoFilter env field criteria counter
  (filter.map fun f ↦ (f.1.text, f.2), counter)

def buildFilter (conditionType : String) (criteria : Json) (counter : ℕ) :
    Option ParsedFilter × ℕ :=
  match conditionType with
  | "match" =>
    match (criteria.get "any").bind Json.asArray with
    | some any =>
      let (f, counter) := buildMatchAnyFilter field any counter
      (some f, counter)
    | none =>
      match (criteria.get "text").bind Json.asStr with
      | some text => (some (buildTextFilter field text), counter)
      | none => buildExactMatchFilter env field criteria counter
  | "range" => buildRangeFilter env field criteria counter
  | "geo" => buildGeoFilter env field criteria counter
  | _ => (none, counter)

end Leaves

/-! ## Groups -/

/-- The clauses of one kind of group, when there is one. -/
def groupClause (sep : Text) (filters : Option (List ParsedFilter)) : List Text :=
  match filters with
  | some (f :: fs) => [parens (sep.intercalate ((f :: fs).map Prod.fst))]
  | _ => []

/-- `build_condition`: blanks between `and` clauses, bars between `or` clauses. -/
def buildCondition (andSubfilters orSubfilters : Option (List ParsedFilter)) :
    Option ParsedFilter :=
  let clauseParts := groupClause [' '] andSubfilters ++ groupClause [' ', '|', ' '] orSubfilters
  let allParams := ((andSubfilters.getD [] ++ orSubfilters.getD []).map Prod.snd).foldl
    Params.extend []
  if clauseParts.isEmpty then none else some ([' '].intercalate clauseParts, allParams)

/-- `build_subfilters`, with a nested group as `build_group` builds it. -/
def filterBuilder (env : NumberEnv) : ConditionTree.GroupBuilder (StateM ℕ) ParsedFilter where
  isGroup obj := containsKey "and" obj || containsKey "or" obj
  other _ := pure []
  leaf obj := do
    let filters ← (fieldLeaves obj).mapM fun l ↦
      (fun counter ↦ buildFilter env l.field l.op l.criteria counter : StateM ℕ
        (Option ParsedFilter))
    pure (filters.filterMap id)
  enter _ _ := pure ⟨⟩
  leave _ _ := pure ⟨⟩
  group _ andSubfilters orSubfilters := pure (buildCondition andSubfilters orSubfilters).toList

def buildGroup (env : NumberEnv) (obj : List (String × Json)) :
    StateM ℕ (Option ParsedFilter) := do
  let andSubfilters ← (filterBuilder env).arrayAt "and" obj
  let orSubfilters ← (filterBuilder env).arrayAt "or" obj
  pure (buildCondition andSubfilters orSubfilters)

def parseConditions (env : NumberEnv) (conditions : Json) : Option ParsedFilter :=
  match conditions.asObject with
  | none => none
  | some obj =>
    if obj.isEmpty then none
    else if Chroma.conditionsMentionGeo conditions then none
    else ((buildGroup env obj).run 0).1

end VectorDbBenchmark.Valkey
