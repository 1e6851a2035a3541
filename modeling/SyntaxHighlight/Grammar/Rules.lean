import SyntaxHighlight.Json5.Value
import SyntaxHighlight.Names.Set

/-!
# Rule files

A rule file is a JSON5 text with up to three parts:

    simpleTerms: { "identifier": "variable" }        types with one term
    complexTerms: ["identifier"]                      types that need a look at their surroundings
    complexScopes: { "call > identifier": "function" }  patterns and their terms

The parts come in any order as members of an object, each at most once, or in this order as items
of an array. `complexTerms` may also be an object, of which the names count.
-/

namespace SyntaxHighlight

/-- The contents of a rule file. In a part that gives one name twice, the last value counts. -/
structure Rules where
  simpleTerms : NameMap String := .empty
  complexTerms : NameSet := .empty
  complexScopes : NameMap String := .empty

namespace Rules

open Json5 (Value)

def termMap? : Value → Option (NameMap String)
  | .object members => do
    let pairs ← members.mapM fun
      | (some name, .string (some term)) => some (name, term)
      | _ => none
    return .ofList pairs
  | _ => none

/-- A list of strings, or the names of an object. -/
def typeSet? : Value → Option NameSet
  | .array items => do
    let names ← items.mapM fun
      | .string (some name) => some name
      | _ => none
    return .ofList names
  | .object members =>
    if (Value.object members).isDecodable then some (.ofList (members.filterMap (·.1))) else none
  | _ => none

/-- The three parts in order, of which the last ones may be missing. -/
def ofItems? : List Value → Option Rules
  | [] => some {}
  | [a] => do return { simpleTerms := ← termMap? a }
  | [a, b] => do return { simpleTerms := ← termMap? a, complexTerms := ← typeSet? b }
  | a :: b :: c :: _ => do
    return ⟨← termMap? a, ← typeSet? b, ← termMap? c⟩

/-- Add a part by its name. -/
def addMember (rules : Rules) : Option String × Value → Option Rules
  | (some "simpleTerms", v) => do return { rules with simpleTerms := ← termMap? v }
  | (some "complexTerms", v) => do return { rules with complexTerms := ← typeSet? v }
  | (some "complexScopes", v) => do return { rules with complexScopes := ← termMap? v }
  | _ => none

/-- The rules that a value describes. -/
def ofValue? : Value → Option Rules
  | .array items => ofItems? items
  | .object members =>
    if (members.map (·.1)).Nodup then members.foldlM addMember {} else none
  | _ => none

def parse (text : String) : Option Rules := do ofValue? (← Value.parse text)

end Rules

end SyntaxHighlight
