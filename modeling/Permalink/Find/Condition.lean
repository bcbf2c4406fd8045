import Permalink.Find.Basic
import Permalink.Schema.Basic

/-! Conditions in urls: a key, an operator and a value, or text that any field must contain. -/

namespace Permalink.Find

/-- Comparison signs that were escaped on the way, as the signs they are. -/
def restoreSigns : List Char → List Char
  | '%' :: '3' :: c :: rest =>
    if c = 'C' || c = 'c' then '<' :: restoreSigns rest
    else if c = 'E' || c = 'e' then '>' :: restoreSigns rest
    else '%' :: restoreSigns ('3' :: c :: rest)
  | c :: rest => c :: restoreSigns rest
  | [] => []

/-- The text around the first operator whose symbol occurs at all. -/
def splitOperator? (input : List Char) : Option (List Char × Operator × List Char) :=
  Operator.spelled.findSome? fun op =>
    (Text.cutAt op.symbol.toList input).map fun (key, value) => (key, op, value)

def splitCondition (schema : Schema) (input : List Char) : FindKey × Operator × List Char :=
  let declared := (splitOperator? input).bind fun (key, op, value) =>
    (schema.findKey? (String.ofList key)).map fun key => (key, op, value)
  declared.getD (schema.wildcard, ⟨false, .contains⟩, input)

/-- Takes a star off a value that is to be contained, the one in front first. -/
def splitStar (op : Operator) (value : List Char) : Operator × List Char :=
  if op.relation = .contains then
    match value with
    | '*' :: rest => ({ op with relation := .endsWith }, rest)
    | value =>
      if value.getLast? = some '*' then ({ op with relation := .startsWith }, value.dropLast)
      else (op, value)
  else (op, value)

def readValue (key : FindKey) (raw : List Char) : String :=
  String.ofList (key.canonicalChars (Segment.decodeChars raw))

def readConditionValue (key : FindKey) (raw : List Char) : ConditionValue :=
  match Text.cut ',' raw with
  | some (low, high) =>
    if key.type.isRangeable then .range (readValue key low) (readValue key high)
    else .single (readValue key raw)
  | none => .single (readValue key raw)

def readCondition (schema : Schema) (raw : List Char) : Condition :=
  let (key, op, value) := splitCondition schema (restoreSigns raw)
  let (op, value) := splitStar op value
  ⟨key.id, op, readConditionValue key value⟩

def conditionKey (schema : Schema) (c : Condition) : FindKey :=
  (schema.findKey? c.key).getD schema.wildcard

def writeValue (key : FindKey) (value : String) : List Char :=
  Segment.encodeChars (key.shownChars value.toList)

def writeConditionValue (key : FindKey) : ConditionValue → List Char
  | .single value => writeValue key value
  | .range low high => writeValue key low ++ ',' :: writeValue key high

def writeStar (op : Operator) (value : List Char) : List Char :=
  match op.relation with
  | .startsWith => value ++ ['*']
  | .endsWith => '*' :: value
  | _ => value

/-- The text of a condition. What any field must contain is written without key and operator. -/
def writeCondition (schema : Schema) (c : Condition) : List Char :=
  let key := conditionKey schema c
  let value := writeStar c.operator (writeConditionValue key c.value)
  let symbol := c.operator.urlSymbol
  if key.id = wildcardId ∧ symbol = "=" then value
  else key.id.toList ++ symbol.toList ++ value

end Permalink.Find
