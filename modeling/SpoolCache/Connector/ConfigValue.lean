import SpoolCache.Base.Except
import SpoolCache.Base.JsonReading
import SpoolCache.Store.FileFormat

/-!
# Configuration values

`connector.py:2003–2101` and `identity.py:13–29`. A configuration is normalized to a JSON value and
hashed through its canonical text: a mapping gets the texts of its keys, a set is sorted by the
hashes of its normalized items, and an object gives its public attributes. A value is here what
`_json_safe` can see of it, in the order in which its sets, mappings and attribute dictionaries are
iterated; it is finite, so it never contains itself. A key that
is a subclass of `tuple` with a `repr` of its own, such as a named tuple, is left out.
-/

namespace SpoolCache.Connector

open SpoolCache.Base

/-- A `float`. The text of a finite one is its `repr`. -/
inductive PyFloat where
  | finite (text : String) (isFloat : Json.FloatText text)
  | nan
  | infinite (negative : Bool)

/-- The names of the fields of a dataclass, or of an attribute dictionary. -/
structure AttributeNames where
  toList : List String
  nodup : toList.Nodup

/-- A value of a configuration, by the first branch of `_json_safe_inner` that takes it. A `type` is
`f"{type(value).__module__}.{type(value).__qualname__}"`. -/
inductive ConfigValue where
  | none
  | bool (b : Bool)
  | int (n : Int)
  | str (s : String)
  /-- A member of an `Enum` that is an `int`. -/
  | intEnum (type : String) (n : Int)
  /-- A member of an `Enum` that is a `str`. -/
  | strEnum (type : String) (s : String)
  | enum (type : String) (value : ConfigValue)
  | float (x : PyFloat)
  | bytes (data : Bytes)
  /-- An `os.PathLike`. -/
  | path (text : String)
  | type (name : String)
  | callable (name : String)
  /-- An object with a `to_dict`, and what that returns. -/
  | toDict (type : String) (dict : ConfigValue)
  | mapping (entries : List (ConfigValue × ConfigValue))
  | list (items : List ConfigValue)
  | tuple (items : List ConfigValue)
  | set (frozen : Bool) (items : List ConfigValue)
  | dataclass (type : String) (names : AttributeNames) (values : List ConfigValue)
  | object (type : String) (names : AttributeNames) (values : List ConfigValue)

/-- What an interpreter and the classes of a configuration add to `str` and `re`: printable and word
characters, and the `__str__` and `__repr__` of classes. -/
structure Interpreter where
  printable : Char → Bool
  wordChar : Char → Bool
  objectStr : ConfigValue → String
  objectRepr : ConfigValue → String

/-! ### Texts of values -/

/-- A character of `str.__repr__` between `quote`s. -/
def reprChar (py : Interpreter) (quote c : Char) : List Char :=
  if c = quote ∨ c = '\\' then ['\\', c]
  else if c = '\t' then ['\\', 't']
  else if c = '\n' then ['\\', 'n']
  else if c = '\r' then ['\\', 'r']
  else if c.toNat < 32 ∨ c.toNat = 127 then '\\' :: 'x' :: Digest.hexChars 2 c.toNat
  else if c.toNat < 127 ∨ py.printable c then [c]
  else if c.toNat < 256 then '\\' :: 'x' :: Digest.hexChars 2 c.toNat
  else if c.toNat < 65536 then '\\' :: 'u' :: Digest.hexChars 4 c.toNat
  else '\\' :: 'U' :: Digest.hexChars 8 c.toNat

/-- The quotes of `repr`: double ones for a text with single ones only. -/
def reprQuote (text : List Char) : Char :=
  if '\'' ∈ text ∧ '"' ∉ text then '"' else '\''

/-- `str.__repr__`. -/
def strRepr (py : Interpreter) (text : List Char) : List Char :=
  reprQuote text :: text.flatMap (reprChar py (reprQuote text)) ++ [reprQuote text]

/-- `bytes.__repr__`; a byte is escaped like a character that is not printable. -/
def bytesRepr (py : Interpreter) (data : Bytes) : List Char :=
  'b' :: strRepr { py with printable := fun _ ↦ false } (data.map fun b ↦ Char.ofNat b.toNat)

/-- Texts with `", "` between them. -/
def commaSeparated : List (List Char) → List Char
  | [] => []
  | [t] => t
  | t :: ts => t ++ ',' :: ' ' :: commaSeparated ts

/-- `float.__repr__`. -/
def PyFloat.text : PyFloat → String
  | .finite text _ => text
  | .nan => "nan"
  | .infinite negative => if negative then "-inf" else "inf"

mutual

/-- `repr(value)`. -/
def pyRepr (py : Interpreter) : ConfigValue → List Char
  | .none => "None".toList
  | .bool b => (if b then "True" else "False").toList
  | .int n => Json.decimal n
  | .str s => strRepr py s.toList
  | .float x => x.text.toList
  | .bytes data => bytesRepr py data
  | .mapping entries => '{' :: commaSeparated (reprEntries py entries) ++ ['}']
  | .list items => '[' :: commaSeparated (reprItems py items) ++ [']']
  | .tuple [item] => '(' :: pyRepr py item ++ [',', ')']
  | .tuple items => '(' :: commaSeparated (reprItems py items) ++ [')']
  | .set frozen [] => (if frozen then "frozenset()" else "set()").toList
  | .set frozen items =>
    let text := '{' :: commaSeparated (reprItems py items) ++ ['}']
    if frozen then "frozenset(".toList ++ text ++ [')'] else text
  | value => (py.objectRepr value).toList

/-- The texts of items. -/
def reprItems (py : Interpreter) : List ConfigValue → List (List Char)
  | [] => []
  | item :: items => pyRepr py item :: reprItems py items

/-- The texts of the entries of a `dict`. -/
def reprEntries (py : Interpreter) : List (ConfigValue × ConfigValue) → List (List Char)
  | [] => []
  | (key, item) :: entries =>
    (pyRepr py key ++ ':' :: ' ' :: pyRepr py item) :: reprEntries py entries

end

/-- `str(value)`. -/
def pyStr (py : Interpreter) (value : ConfigValue) : String :=
  match value with
  | .str s => s
  | .none | .bool _ | .int _ | .float _ | .bytes _ | .mapping _ | .list _ | .tuple _ | .set _ _ =>
    String.ofList (pyRepr py value)
  | value => py.objectStr value

/-! ### Normalization -/

/-- `at 0x` and hexadecimal digits up to the end of a word. -/
def addressFollows (py : Interpreter) (text : List Char) : Bool :=
  if "at 0x".toList <+: text then
    let rest := text.drop 5
    let digits := rest.takeWhile fun c ↦ (Json.hexValue c).isSome
    digits ≠ [] ∧ ((rest.drop digits.length).head?.all fun c ↦ ¬ py.wordChar c)
  else false

/-- The search for an address behind a character. -/
def addressBehind (py : Interpreter) (previous : Option Char) : List Char → Bool
  | [] => false
  | c :: text =>
    (previous.all (fun p ↦ ¬ py.wordChar p) && addressFollows py (c :: text)) ||
      addressBehind py (some c) text

/-- `re.search(r"\bat 0x[0-9a-fA-F]+\b", rendered)`, `connector.py:2093`. -/
def showsAddress (py : Interpreter) (rendered : String) : Bool :=
  addressBehind py Option.none rendered.toList

/-- Fields and attributes that are normalized, `connector.py:2071–2072` and `connector.py:2081`. -/
def isPublic (name : String) : Bool := ¬ name.startsWith "_" ∧ name ≠ "compute_hash"

/-- `sha256_json`, `identity.py:28–29`, of `{"item": item}`. -/
def itemHash (item : Json) : Digest := sha256 (Json.canonicalJson (.obj [("item", item)]))

/-- `sorted(normalized, key=...)`, `connector.py:2063–2066`. -/
def sortedByHash (items : List Json) : List Json :=
  items.insertionSort fun a b ↦ itemHash a ≤ itemHash b

mutual

/-- `_json_safe_inner`, `connector.py:2007–2101`. -/
def jsonSafe (py : Interpreter) : ConfigValue → Except PyError Json
  | .none => .ok .null
  | .bool b => .ok (.bool b)
  | .int n => .ok (.int n)
  | .str s => .ok (.str s)
  | .intEnum _ n => .ok (.int n)
  | .strEnum _ s => .ok (.str s)
  | .enum type value => do
    let item ← jsonSafe py value
    pure (.obj [("enum", .str type), ("value", item)])
  | .float (.finite text _) => .ok (.float text)
  | .float x => .ok (.str x.text)
  | .bytes data => .ok (.obj [("bytes", .int data.length),
      ("sha256", .str (sha256 data).hex)])
  | .path text => .ok (.str text)
  | .type name => .ok (.str name)
  | .callable name => .ok (.obj [("callable", .str name)])
  | .toDict _ dict =>
    match jsonSafe py dict with
    | .ok item => .ok item
    | .error _ => .error (.unsupportedRuntimeError "cannot serialize a public vLLM configuration")
  | .mapping entries => do pure (.obj (← jsonSafeEntries py entries []))
  | .list items => do pure (.arr (← jsonSafeItems py items))
  | .tuple items => do pure (.arr (← jsonSafeItems py items))
  | .set _ items => do pure (.arr (sortedByHash (← jsonSafeItems py items)))
  | .dataclass _ names values => do pure (.obj (← jsonSafeFields py names.toList values))
  | .object type names values =>
    if (names.toList.zip values).any fun p ↦ isPublic p.1 then do
      let fields ← jsonSafeFields py names.toList values
      pure (.obj [("type", .str type), ("fields", .obj fields)])
    else
      let rendered := pyStr py (.object type names values)
      if showsAddress py rendered then
        .error (.unsupportedRuntimeError "vLLM configuration contains an opaque public value")
      else .ok (.obj [("type", .str type), ("value", .str rendered)])

/-- Items of a list, a tuple or a set. -/
def jsonSafeItems (py : Interpreter) : List ConfigValue → Except PyError (List Json)
  | [] => .ok []
  | item :: items => do
    let first ← jsonSafe py item
    let rest ← jsonSafeItems py items
    pure (first :: rest)

/-- Entries of a mapping behind those of `result`, `connector.py:2048–2055`. -/
def jsonSafeEntries (py : Interpreter) : List (ConfigValue × ConfigValue) →
    List (String × Json) → Except PyError (List (String × Json))
  | [], result => .ok result
  | (key, item) :: entries, result =>
    if pyStr py key ∈ result.map Prod.fst then
      .error (.unsupportedRuntimeError "vLLM configuration keys are not canonically unique")
    else do
      let value ← jsonSafe py item
      jsonSafeEntries py entries (result ++ [(pyStr py key, value)])

/-- Public fields of a dataclass, or public attributes of an object. -/
def jsonSafeFields (py : Interpreter) : List String → List ConfigValue →
    Except PyError (List (String × Json))
  | name :: names, value :: values =>
    if isPublic name then do
      let item ← jsonSafe py value
      let rest ← jsonSafeFields py names values
      pure ((name, item) :: rest)
    else jsonSafeFields py names values
  | _, _ => .ok []

end

/-- `canonical_json(_json_safe(value))`; `none` when it raises. -/
def configBytes (py : Interpreter) (value : ConfigValue) : Option Bytes :=
  match jsonSafe py value with
  | .ok item => some (Json.canonicalJson item)
  | .error _ => Option.none

/-! ### Reordering -/

/-- One set, mapping or attribute dictionary is iterated in another order. -/
inductive ReorderStep : ConfigValue → ConfigValue → Prop where
  | elements {frozen : Bool} {items items' : List ConfigValue} :
    items.Perm items' → ReorderStep (.set frozen items) (.set frozen items')
  | entries {entries entries' : List (ConfigValue × ConfigValue)} :
    entries.Perm entries' → ReorderStep (.mapping entries) (.mapping entries')
  | attributes {type : String} {names names' : AttributeNames} {values values' : List ConfigValue} :
    names.toList.length = values.length → names'.toList.length = values'.length →
    (names.toList.zip values).Perm (names'.toList.zip values') →
    ReorderStep (.object type names values) (.object type names' values')
  | inEnum {type : String} {a b : ConfigValue} :
    ReorderStep a b → ReorderStep (.enum type a) (.enum type b)
  | inDict {type : String} {a b : ConfigValue} :
    ReorderStep a b → ReorderStep (.toDict type a) (.toDict type b)
  | inKey {before after : List (ConfigValue × ConfigValue)} {a b item : ConfigValue} :
    ReorderStep a b →
    ReorderStep (.mapping (before ++ (a, item) :: after)) (.mapping (before ++ (b, item) :: after))
  | inEntry {before after : List (ConfigValue × ConfigValue)} {key a b : ConfigValue} :
    ReorderStep a b →
    ReorderStep (.mapping (before ++ (key, a) :: after)) (.mapping (before ++ (key, b) :: after))
  | inList {before after : List ConfigValue} {a b : ConfigValue} :
    ReorderStep a b →
    ReorderStep (.list (before ++ a :: after)) (.list (before ++ b :: after))
  | inTuple {before after : List ConfigValue} {a b : ConfigValue} :
    ReorderStep a b →
    ReorderStep (.tuple (before ++ a :: after)) (.tuple (before ++ b :: after))
  | inSet {frozen : Bool} {before after : List ConfigValue} {a b : ConfigValue} :
    ReorderStep a b →
    ReorderStep (.set frozen (before ++ a :: after)) (.set frozen (before ++ b :: after))
  | inField {type : String} {names : AttributeNames} {before after : List ConfigValue}
    {a b : ConfigValue} :
    ReorderStep a b → ReorderStep (.dataclass type names (before ++ a :: after))
      (.dataclass type names (before ++ b :: after))
  | inAttribute {type : String} {names : AttributeNames} {before after : List ConfigValue}
    {a b : ConfigValue} :
    ReorderStep a b → ReorderStep (.object type names (before ++ a :: after))
      (.object type names (before ++ b :: after))

/-- The same value with any of its iterations in another order. -/
def Reorder : ConfigValue → ConfigValue → Prop := Relation.ReflTransGen ReorderStep

/-- The text of a value does not depend on the order of any iteration in it. -/
def TextStable (py : Interpreter) (value : ConfigValue) : Prop :=
  ∀ value', Reorder value value' → pyStr py value' = pyStr py value

mutual

/-- The texts that are taken of keys, and of objects without a public attribute, are stable. -/
def TextsStable (py : Interpreter) : ConfigValue → Prop
  | .enum _ value => TextsStable py value
  | .toDict _ dict => TextsStable py dict
  | .mapping entries => EntriesStable py entries
  | .list items => ItemsStable py items
  | .tuple items => ItemsStable py items
  | .set _ items => ItemsStable py items
  | .dataclass _ names values => FieldsStable py names.toList values
  | .object type names values =>
    FieldsStable py names.toList values ∧
      (((names.toList.zip values).any fun p ↦ isPublic p.1) = false →
        TextStable py (.object type names values))
  | _ => True

/-- Texts in items. -/
def ItemsStable (py : Interpreter) : List ConfigValue → Prop
  | [] => True
  | item :: items => TextsStable py item ∧ ItemsStable py items

/-- Texts of keys and in values. -/
def EntriesStable (py : Interpreter) : List (ConfigValue × ConfigValue) → Prop
  | [] => True
  | (key, item) :: entries => TextStable py key ∧ TextsStable py item ∧ EntriesStable py entries

/-- Texts in public fields. -/
def FieldsStable (py : Interpreter) : List String → List ConfigValue → Prop
  | name :: names, value :: values =>
    (isPublic name = true → TextsStable py value) ∧ FieldsStable py names values
  | _, _ => True

end

mutual

/-- What is hashed to sort the sets of a value. -/
def hashInputs (py : Interpreter) : ConfigValue → List Bytes
  | .enum _ value => hashInputs py value
  | .toDict _ dict => hashInputs py dict
  | .mapping entries => hashInputsEntries py entries
  | .list items => hashInputsItems py items
  | .tuple items => hashInputsItems py items
  | .set _ items =>
    hashInputsItems py items ++
      match jsonSafeItems py items with
      | .ok normalized => normalized.map fun item ↦ Json.canonicalJson (.obj [("item", item)])
      | .error _ => []
  | .dataclass _ names values => hashInputsFields py names.toList values
  | .object _ names values => hashInputsFields py names.toList values
  | _ => []

/-- What is hashed in items. -/
def hashInputsItems (py : Interpreter) : List ConfigValue → List Bytes
  | [] => []
  | item :: items => hashInputs py item ++ hashInputsItems py items

/-- What is hashed in entries. -/
def hashInputsEntries (py : Interpreter) : List (ConfigValue × ConfigValue) → List Bytes
  | [] => []
  | (_, item) :: entries => hashInputs py item ++ hashInputsEntries py entries

/-- What is hashed in public fields. -/
def hashInputsFields (py : Interpreter) : List String → List ConfigValue → List Bytes
  | name :: names, value :: values =>
    (if isPublic name then hashInputs py value else []) ++ hashInputsFields py names values
  | _, _ => []

end

end SpoolCache.Connector
