import SpoolCache.Base.Traversal
import SpoolCache.Connector.ConfigValue

/-!
# The identity of a configuration and the order of iteration

The canonical bytes of a configuration are those of a normal form: its JSON value with the fields of
every object sorted. The normal form of a list, set, mapping or object is made of the normal forms
of its parts, and those of sets and mappings do not depend on the order. The texts of keys are the
exception: `str(key)` iterates the sets inside a key.
-/

namespace SpoolCache.Connector

open SpoolCache.Base Json

/-! ### Values that are normalized -/

section

variable {py : Interpreter}

private theorem sublist_jsonSafeFields {names : List String} {values : List ConfigValue}
    {fields : List (String × Json)} (h : jsonSafeFields py names values = .ok fields) :
    (fields.map Prod.fst).Sublist names := by
  induction names generalizing values fields with
  | nil =>
    unfold jsonSafeFields at h
    cases h
    exact List.Sublist.refl _
  | cons name names ih =>
    cases values with
    | nil =>
      cases h
      exact List.nil_sublist _
    | cons value values =>
      unfold jsonSafeFields at h
      split at h
      · obtain ⟨item, hitem, h⟩ := bind_ok h
        obtain ⟨rest, hrest, h⟩ := bind_ok h
        cases h
        exact (ih hrest).cons_cons name
      · exact (ih h).cons name

mutual

private theorem readable_jsonSafe (value : ConfigValue) {item : Json}
    (h : jsonSafe py value = .ok item) :
    item.Readable := by
  match value with
  | .none | .bool _ | .int _ | .str _ | .intEnum _ _ | .strEnum _ _ | .path _ | .type _ =>
    cases h
    trivial
  | .enum type value =>
    obtain ⟨inner, hinner, h⟩ := bind_ok h
    cases h
    exact ⟨by simp, trivial, readable_jsonSafe value hinner, trivial⟩
  | .float (.finite text isFloat) =>
    cases h
    exact isFloat
  | .float .nan | .float (.infinite _) =>
    cases h
    trivial
  | .bytes data =>
    cases h
    exact ⟨by simp, trivial, trivial, trivial⟩
  | .callable name =>
    cases h
    exact ⟨by simp, trivial, trivial⟩
  | .toDict type dict =>
    unfold jsonSafe at h
    split at h
    · next inner hinner =>
      cases h
      exact readable_jsonSafe dict hinner
    · cases h
  | .mapping entries =>
    obtain ⟨fields, hfields, h⟩ := bind_ok h
    cases h
    exact readable_jsonSafeEntries entries [] ⟨List.nodup_nil, trivial⟩ hfields
  | .list items | .tuple items =>
    obtain ⟨inner, hinner, h⟩ := bind_ok h
    cases h
    exact readable_jsonSafeItems items hinner
  | .set frozen items =>
    obtain ⟨inner, hinner, h⟩ := bind_ok h
    cases h
    have hreadable := readable_jsonSafeItems items hinner
    rw [Readable, readableItems_iff]
    rw [readableItems_iff] at hreadable
    intro item hitem
    exact hreadable item ((List.perm_insertionSort _ _).mem_iff.mp hitem)
  | .dataclass type names values =>
    obtain ⟨fields, hfields, h⟩ := bind_ok h
    cases h
    exact ⟨names.nodup.sublist (sublist_jsonSafeFields hfields),
      readable_jsonSafeFields names.toList values hfields⟩
  | .object type names values =>
    unfold jsonSafe at h
    split at h
    · obtain ⟨fields, hfields, h⟩ := bind_ok h
      cases h
      have hnodup := names.nodup.sublist (sublist_jsonSafeFields hfields)
      have hreadable := readable_jsonSafeFields names.toList values hfields
      exact ⟨by simp, trivial, ⟨hnodup, hreadable⟩, trivial⟩
    · dsimp only at h
      split at h
      · cases h
      · cases h
        exact ⟨by simp, trivial, trivial, trivial⟩

/-- The items of a safe list can be read back. -/
theorem readable_jsonSafeItems (values : List ConfigValue) {items : List Json}
    (h : jsonSafeItems py values = .ok items) : ReadableItems items := by
  match values with
  | [] =>
    cases h
    trivial
  | value :: values =>
    obtain ⟨first, hfirst, h⟩ := bind_ok h
    obtain ⟨rest, hrest, h⟩ := bind_ok h
    cases h
    exact ⟨readable_jsonSafe value hfirst, readable_jsonSafeItems values hrest⟩

/-- The texts of safe set members can be read back. -/
theorem readable_jsonSafeEntries (entries : List (ConfigValue × ConfigValue))
    (result : List (String × Json)) (hresult : (Json.obj result).Readable)
    {fields : List (String × Json)} (h : jsonSafeEntries py entries result = .ok fields) :
    (Json.obj fields).Readable := by
  match entries with
  | [] =>
    cases h
    exact hresult
  | (key, value) :: entries =>
    unfold jsonSafeEntries at h
    split at h
    · cases h
    · next hfresh =>
      obtain ⟨item, hitem, h⟩ := bind_ok h
      rw [← setField_of_not_mem hfresh] at h
      have hreadable := readable_jsonSafe value hitem
      exact readable_jsonSafeEntries entries _ (readable_setField hresult hreadable) h

/-- The fields of a safe mapping can be read back. -/
theorem readable_jsonSafeFields (names : List String) (values : List ConfigValue)
    {fields : List (String × Json)} (h : jsonSafeFields py names values = .ok fields) :
    ReadableFields fields := by
  match names, values with
  | [], _ =>
    unfold jsonSafeFields at h
    cases h
    trivial
  | _ :: _, [] =>
    cases h
    trivial
  | name :: names, value :: values =>
    unfold jsonSafeFields at h
    split at h
    · obtain ⟨item, hitem, h⟩ := bind_ok h
      obtain ⟨rest, hrest, h⟩ := bind_ok h
      cases h
      exact ⟨readable_jsonSafe value hitem, readable_jsonSafeFields names values hrest⟩
    · exact readable_jsonSafeFields names values h

end

/-! ### Normal forms -/

/-- What is made of a returned value. -/
def returned {α β : Type} (f : α → β) : Except PyError α → Option β
  | .ok a => some (f a)
  | .error _ => Option.none

/-- The normal form of a value; `none` when it cannot be normalized. -/
def normal (py : Interpreter) (value : ConfigValue) : Option Json :=
  returned Json.sorted (jsonSafe py value)

/-- The pairs of a name and a normal form. -/
def normalField (py : Interpreter) (p : String × ConfigValue) : Option (String × Json) :=
  (normal py p.2).map (Prod.mk p.1)

/-- The entries of a mapping with the texts of their keys. -/
def namedEntries (py : Interpreter) (entries : List (ConfigValue × ConfigValue)) :
    List (String × ConfigValue) :=
  entries.map fun p ↦ (pyStr py p.1, p.2)

/-- The fields that are normalized. -/
def publicFields (names : List String) (values : List ConfigValue) : List (String × ConfigValue) :=
  (names.zip values).filter fun p ↦ isPublic p.1

/-- An object with its fields in the order of their names. -/
def sortedObj (fields : List (String × Json)) : Json :=
  .obj (fields.insertionSort fun a b ↦ a.1 ≤ b.1)

private theorem normal_eq_some_iff {value : ConfigValue} {normalized : Json} :
    normal py value = some normalized ↔ ∃ item, jsonSafe py value = .ok item ∧
      item.sorted = normalized := by
  unfold normal
  cases jsonSafe py value with
  | error e => simp [returned]
  | ok item => simp [returned]

private theorem canonical_normal {value : ConfigValue} {normalized : Json}
    (h : normal py value = some normalized) : normalized.Canonical := by
  obtain ⟨item, hitem, rfl⟩ := normal_eq_some_iff.mp h
  exact canonical_sorted item (readable_jsonSafe value hitem)

private theorem configBytes_eq (value : ConfigValue) :
    configBytes py value = (normal py value).map canonicalJson := by
  unfold configBytes normal
  cases jsonSafe py value with
  | error e => rfl
  | ok item => rw [returned, Option.map_some, canonicalJson_sorted]

/-- Two values have the same bytes, or both raise, when they have the same normal form. -/
theorem configBytes_eq_iff {value value' : ConfigValue} :
    configBytes py value' = configBytes py value ↔ normal py value' = normal py value := by
  rw [configBytes_eq, configBytes_eq]
  constructor
  · intro h
    cases hv : normal py value with
    | none =>
      rw [hv, Option.map_none, Option.map_eq_none_iff] at h
      exact h
    | some item =>
      cases hv' : normal py value' with
      | none =>
        rw [hv, hv', Option.map_none, Option.map_some] at h
        cases h
      | some item' =>
        rw [hv, hv', Option.map_some, Option.map_some] at h
        rw [canonicalJson_inj (canonical_normal hv') (canonical_normal hv) (Option.some.inj h)]
  · intro h
    rw [h]

private theorem normal_enum (type : String) (value : ConfigValue) :
    normal py (.enum type value) =
      (normal py value).map fun item ↦ sortedObj [("enum", .str type), ("value", item)] := by
  unfold normal
  rw [jsonSafe]
  cases jsonSafe py value with
  | error e => rfl
  | ok item => rfl

private theorem normal_toDict (type : String) (dict : ConfigValue) :
    normal py (.toDict type dict) = normal py dict := by
  unfold normal
  rw [jsonSafe]
  cases jsonSafe py dict with
  | error e => rfl
  | ok item => rfl

/-- The items of a list, a tuple or a set. -/
theorem mapM_normal (values : List ConfigValue) :
    values.mapM (normal py) = returned sortedItems (jsonSafeItems py values) := by
  induction values with
  | nil => rfl
  | cons value values ih =>
    rw [List.mapM_cons, ih, jsonSafeItems, normal]
    cases jsonSafe py value with
    | error e => rfl
    | ok item =>
      cases jsonSafeItems py values with
      | error e => rfl
      | ok items => rfl

private theorem normal_list (values : List ConfigValue) :
    normal py (.list values) = (values.mapM (normal py)).map .arr := by
  rw [mapM_normal, normal, jsonSafe]
  cases jsonSafeItems py values with
  | error e => rfl
  | ok items => rfl

private theorem normal_tuple (values : List ConfigValue) :
    normal py (.tuple values) = (values.mapM (normal py)).map .arr := by
  rw [mapM_normal, normal, jsonSafe]
  cases jsonSafeItems py values with
  | error e => rfl
  | ok items => rfl

private theorem itemHash_sorted (item : Json) : itemHash item.sorted = itemHash item := by
  have hbytes := canonicalJson_sorted (.obj [("item", item)])
  exact congrArg sha256 hbytes

private theorem normal_set (frozen : Bool) (values : List ConfigValue) :
    normal py (.set frozen values) =
      (values.mapM (normal py)).map fun items ↦ .arr (sortedByHash items) := by
  rw [mapM_normal, normal, jsonSafe]
  cases jsonSafeItems py values with
  | error e => rfl
  | ok items =>
    have hmap := List.map_insertionSort (fun a b : Json ↦ itemHash a ≤ itemHash b)
      (fun a b : Json ↦ itemHash a ≤ itemHash b) Json.sorted items (fun a _ b _ ↦ by
        rw [itemHash_sorted, itemHash_sorted])
    show some (Json.arr (sortedItems (sortedByHash items))) = some _
    rw [sortedItems_eq_map, sortedItems_eq_map]
    unfold sortedByHash
    rw [hmap]

/-- The entries of a mapping, behind those of `result`. -/
theorem returned_jsonSafeEntries (entries : List (ConfigValue × ConfigValue))
    {result : List (String × Json)} (hresult : (result.map Prod.fst).Nodup) :
    returned sortedFields (jsonSafeEntries py entries result) =
      if (result.map Prod.fst ++ (namedEntries py entries).map Prod.fst).Nodup then
        ((namedEntries py entries).mapM (normalField py)).map (sortedFields result ++ ·)
      else Option.none := by
  induction entries generalizing result with
  | nil =>
    show some (sortedFields result) = if (result.map Prod.fst ++ []).Nodup then
      some (sortedFields result ++ []) else Option.none
    rw [List.append_nil, List.append_nil, if_pos hresult]
  | cons entry entries ih =>
    obtain ⟨key, value⟩ := entry
    have hcons : namedEntries py ((key, value) :: entries) =
        (pyStr py key, value) :: namedEntries py entries := rfl
    rw [jsonSafeEntries, hcons, List.map_cons, List.mapM_cons]
    split
    · next hmem =>
      rw [if_neg]
      · rfl
      · intro hnodup
        exact (List.nodup_append.mp hnodup).2.2 _ hmem _ List.mem_cons_self rfl
    · next hmem =>
      rw [normalField, normal]
      dsimp only
      cases hvalue : jsonSafe py value with
      | error e =>
        split
        · rfl
        · rfl
      | ok item =>
        have hnodup : ((result ++ [(pyStr py key, item)]).map Prod.fst).Nodup := by
          rw [List.map_append, List.nodup_append]
          refine ⟨hresult, List.nodup_singleton _, ?_⟩
          intro a ha b hb heq
          rw [heq, List.mem_singleton.mp hb] at ha
          exact hmem ha
        have hnames : ∀ rest, (result ++ [(pyStr py key, item)]).map Prod.fst ++ rest =
            result.map Prod.fst ++ pyStr py key :: rest := by
          intro rest
          rw [List.map_append, List.append_assoc]
          rfl
        rw [ok_bind, ih hnodup, hnames]
        split
        · cases hrest : (namedEntries py entries).mapM (normalField py) with
          | none => rfl
          | some rest =>
            rw [sortedFields_eq_map, sortedFields_eq_map, List.map_append, Option.map_some]
            show some _ = some _
            rw [List.append_assoc]
            rfl
        · rfl

private theorem normal_mapping (entries : List (ConfigValue × ConfigValue)) :
    normal py (.mapping entries) =
      if ((namedEntries py entries).map Prod.fst).Nodup then
        ((namedEntries py entries).mapM (normalField py)).map sortedObj
      else Option.none := by
  have hentries := @returned_jsonSafeEntries py entries [] List.nodup_nil
  rw [List.map_nil, List.nil_append] at hentries
  rw [normal, jsonSafe]
  cases hresult : jsonSafeEntries py entries [] with
  | error e =>
    rw [hresult] at hentries
    split
    · next hnodup =>
      rw [if_pos hnodup] at hentries
      have hnone := Option.map_eq_none_iff.mp hentries.symm
      rw [hnone]
      rfl
    · rfl
  | ok fields =>
    rw [hresult] at hentries
    split
    · next hnodup =>
      rw [if_pos hnodup] at hentries
      obtain ⟨items, hitems, hfields⟩ := Option.map_eq_some_iff.mp hentries.symm
      have hfields : items = sortedFields fields := hfields
      rw [hitems, hfields]
      rfl
    · next hnodup =>
      rw [if_neg hnodup] at hentries
      cases hentries

private theorem publicFields_cons (name : String) (names : List String) (value : ConfigValue)
    (values : List ConfigValue) :
    publicFields (name :: names) (value :: values) =
      if isPublic name then (name, value) :: publicFields names values
      else publicFields names values := by
  unfold publicFields
  rw [List.zip_cons_cons, List.filter_cons]

private theorem returned_jsonSafeFields (names : List String) (values : List ConfigValue) :
    returned sortedFields (jsonSafeFields py names values) =
      (publicFields names values).mapM (normalField py) := by
  induction names generalizing values with
  | nil =>
    rw [jsonSafeFields]
    · rfl
    · simp
  | cons name names ih =>
    cases values with
    | nil => rfl
    | cons value values =>
      rw [jsonSafeFields, publicFields_cons]
      split
      · rw [List.mapM_cons, ← ih, normalField, normal]
        dsimp only
        cases jsonSafe py value with
        | error e => rfl
        | ok item =>
          cases jsonSafeFields py names values with
          | error e => rfl
          | ok fields => rfl
      · exact ih values

private theorem normal_dataclass (type : String) (names : AttributeNames)
    (values : List ConfigValue) :
    normal py (.dataclass type names values) =
      ((publicFields names.toList values).mapM (normalField py)).map sortedObj := by
  rw [← returned_jsonSafeFields, normal, jsonSafe]
  cases jsonSafeFields py names.toList values with
  | error e => rfl
  | ok fields => rfl

private theorem any_isPublic (names : List String) (values : List ConfigValue) :
    ((names.zip values).any fun p ↦ isPublic p.1) = true ↔ publicFields names values ≠ [] := by
  unfold publicFields
  rw [List.any_eq_true, ne_eq, List.filter_eq_nil_iff]
  simp

private theorem normal_object (type : String) (names : AttributeNames) (values : List ConfigValue) :
    normal py (.object type names values) =
      if publicFields names.toList values ≠ [] then
        (((publicFields names.toList values).mapM (normalField py)).map sortedObj).map fun fields ↦
          sortedObj [("type", .str type), ("fields", fields)]
      else if showsAddress py (pyStr py (.object type names values)) then Option.none
      else some (sortedObj [("type", .str type),
        ("value", .str (pyStr py (.object type names values)))]) := by
  have hany := any_isPublic names.toList values
  rw [← returned_jsonSafeFields, normal, jsonSafe]
  by_cases hpublic : publicFields names.toList values ≠ []
  · rw [if_pos (hany.mpr hpublic), if_pos hpublic]
    cases jsonSafeFields py names.toList values with
    | error e => rfl
    | ok fields => rfl
  · rw [if_neg (mt hany.mp hpublic), if_neg hpublic]
    dsimp only
    split
    · rfl
    · rfl

/-! ### Results in another order -/

private theorem sortedObj_perm {fields fields' : List (String × Json)} (h : fields.Perm fields')
    (hnodup : (fields.map Prod.fst).Nodup) : sortedObj fields = sortedObj fields' := by
  have : Std.Total fun a b : String × Json ↦ a.1 ≤ b.1 := ⟨fun a b ↦ le_total a.1 b.1⟩
  have : IsTrans (String × Json) fun a b ↦ a.1 ≤ b.1 := ⟨fun a b c hab hbc ↦ le_trans hab hbc⟩
  have hperm : (fields.insertionSort fun a b ↦ a.1 ≤ b.1).Perm
      (fields'.insertionSort fun a b ↦ a.1 ≤ b.1) :=
    (List.perm_insertionSort _ _).trans (h.trans (List.perm_insertionSort _ _).symm)
  unfold sortedObj
  congr 1
  refine List.Perm.eq_of_pairwise ?_ (List.pairwise_insertionSort _ _)
    (List.pairwise_insertionSort _ _) hperm
  intro a b ha hb hab hba
  have ha := (List.perm_insertionSort _ _).mem_iff.mp ha
  have hb := h.mem_iff.mpr ((List.perm_insertionSort _ _).mem_iff.mp hb)
  exact List.inj_on_of_nodup_map hnodup ha hb (le_antisymm hab hba)

private theorem sortedByHash_perm {items items' : List Json} (h : items.Perm items')
    (hinj : ∀ a ∈ items, ∀ b ∈ items, itemHash a = itemHash b → a = b) :
    sortedByHash items = sortedByHash items' := by
  have : Std.Total fun a b : Json ↦ itemHash a ≤ itemHash b := ⟨fun a b ↦ le_total _ _⟩
  have : IsTrans Json fun a b ↦ itemHash a ≤ itemHash b := ⟨fun a b c hab hbc ↦ le_trans hab hbc⟩
  have hperm : (sortedByHash items).Perm (sortedByHash items') :=
    (List.perm_insertionSort _ _).trans (h.trans (List.perm_insertionSort _ _).symm)
  refine List.Perm.eq_of_pairwise ?_ (List.pairwise_insertionSort _ _)
    (List.pairwise_insertionSort _ _) hperm
  intro a b ha hb hab hba
  have ha := (List.perm_insertionSort _ _).mem_iff.mp ha
  have hb := h.mem_iff.mpr ((List.perm_insertionSort _ _).mem_iff.mp hb)
  exact hinj a ha b hb (le_antisymm hab hba)

private theorem names_normalField {named : List (String × ConfigValue)}
    {fields : List (String × Json)} (h : named.mapM (normalField py) = some fields) :
    fields.map Prod.fst = named.map Prod.fst := by
  have hall := mapM_eq_some_iff.mp h
  clear h
  induction hall with
  | nil => rfl
  | cons hab _ ih =>
    obtain ⟨item, _, rfl⟩ := Option.map_eq_some_iff.mp hab
    rw [List.map_cons, List.map_cons, ih]

/-- What is hashed to sort a set are the normal forms of its items. -/
theorem mem_hashInputs_set {frozen : Bool} {values : List ConfigValue} {input : Bytes} :
    input ∈ hashInputs py (.set frozen values) ↔ input ∈ hashInputsItems py values ∨
      ∃ items, values.mapM (normal py) = some items ∧
        ∃ item ∈ items, canonicalJson (.obj [("item", item)]) = input := by
  have hbytes : ∀ item : Json, canonicalJson (.obj [("item", item.sorted)]) =
      canonicalJson (.obj [("item", item)]) := fun item ↦
    canonicalJson_sorted (.obj [("item", item)])
  rw [hashInputs, List.mem_append, mapM_normal]
  cases jsonSafeItems py values with
  | error e => simp [returned]
  | ok normalized => simp [returned, sortedItems_eq_map, hbytes]

/-- Equal hashes of the normal forms of the items of a set are of equal normal forms. -/
theorem itemHash_inj {values : List ConfigValue} {items : List Json}
    (h : values.mapM (normal py) = some items) {frozen : Bool}
    (hsha : NoCollisions (hashInputs py (.set frozen values))) :
    ∀ a ∈ items, ∀ b ∈ items, itemHash a = itemHash b → a = b := by
  have hcanonical : ∀ a ∈ items, (Json.obj [("item", a)]).Canonical := by
    intro a ha
    obtain ⟨value, -, hvalue⟩ := exists_of_mem_mapM h ha
    exact ⟨List.pairwise_singleton _ _, canonical_normal hvalue, trivial⟩
  have hinput : ∀ a ∈ items, canonicalJson (.obj [("item", a)]) ∈
      hashInputs py (.set frozen values) := fun a ha ↦
    mem_hashInputs_set.mpr (.inr ⟨items, h, a, ha, rfl⟩)
  intro a ha b hb heq
  have hbytes := hsha _ (hinput a ha) _ (hinput b hb) heq
  have hobj := canonicalJson_inj (hcanonical a ha) (hcanonical b hb) hbytes
  cases hobj
  rfl

/-! ### Texts and inputs of parts -/

private theorem itemsStable_iff {values : List ConfigValue} :
    ItemsStable py values ↔ ∀ value ∈ values, TextsStable py value := by
  induction values with
  | nil => simp [ItemsStable]
  | cons value values ih => rw [ItemsStable, ih, List.forall_mem_cons]

private theorem entriesStable_iff {entries : List (ConfigValue × ConfigValue)} :
    EntriesStable py entries ↔ ∀ p ∈ entries, TextStable py p.1 ∧ TextsStable py p.2 := by
  induction entries with
  | nil => simp [EntriesStable]
  | cons p entries ih => rw [EntriesStable, ih, List.forall_mem_cons, and_assoc]

private theorem fieldsStable_iff {names : List String} {values : List ConfigValue} :
    FieldsStable py names values ↔ ∀ p ∈ publicFields names values, TextsStable py p.2 := by
  induction names generalizing values with
  | nil => simp [FieldsStable, publicFields]
  | cons name names ih =>
    cases values with
    | nil => simp [FieldsStable, publicFields]
    | cons value values =>
      rw [FieldsStable, ih, publicFields_cons]
      split
      · next hpublic =>
        rw [List.forall_mem_cons]
        simp [hpublic]
      · next hpublic => simp [hpublic]

private theorem textsStable_object {type : String} {names : AttributeNames}
    {values : List ConfigValue} :
    TextsStable py (.object type names values) ↔
      (∀ p ∈ publicFields names.toList values, TextsStable py p.2) ∧
        (publicFields names.toList values = [] → TextStable py (.object type names values)) := by
  have hany := (any_isPublic names.toList values).not
  rw [Bool.not_eq_true, not_not] at hany
  rw [TextsStable, fieldsStable_iff, hany]

private theorem hashInputsItems_eq (values : List ConfigValue) :
    hashInputsItems py values = values.flatMap (hashInputs py) := by
  induction values with
  | nil => rfl
  | cons value values ih => rw [hashInputsItems, ih, List.flatMap_cons]

private theorem hashInputsEntries_eq (entries : List (ConfigValue × ConfigValue)) :
    hashInputsEntries py entries = entries.flatMap fun p ↦ hashInputs py p.2 := by
  induction entries with
  | nil => rfl
  | cons p entries ih => rw [hashInputsEntries, ih, List.flatMap_cons]

private theorem hashInputsFields_eq (names : List String) (values : List ConfigValue) :
    hashInputsFields py names values =
      (publicFields names values).flatMap fun p ↦ hashInputs py p.2 := by
  induction names generalizing values with
  | nil => simp [hashInputsFields, publicFields]
  | cons name names ih =>
    cases values with
    | nil => rfl
    | cons value values =>
      rw [hashInputsFields, ih, publicFields_cons]
      split
      · rw [List.flatMap_cons]
      · rw [List.nil_append]

/-- A value among those of an object is in one of its public fields, or in none. -/
theorem publicFields_middle (names : List String) (before after : List ConfigValue) :
    (∃ front name back, ∀ value,
      publicFields names (before ++ value :: after) = front ++ (name, value) :: back) ∨
    ∃ fields, ∀ value, publicFields names (before ++ value :: after) = fields := by
  induction names generalizing before with
  | nil => exact .inr ⟨[], fun _ ↦ rfl⟩
  | cons name names ih =>
    cases before with
    | nil =>
      by_cases hpublic : isPublic name = true
      · refine .inl ⟨[], name, publicFields names after, fun value ↦ ?_⟩
        rw [List.nil_append, publicFields_cons, if_pos hpublic, List.nil_append]
      · refine .inr ⟨publicFields names after, fun value ↦ ?_⟩
        rw [List.nil_append, publicFields_cons, if_neg hpublic]
    | cons first before =>
      rcases ih before with ⟨front, name', back, hmiddle⟩ | ⟨fields, hmiddle⟩
      · by_cases hpublic : isPublic name = true
        · refine .inl ⟨(name, first) :: front, name', back, fun value ↦ ?_⟩
          rw [List.cons_append, publicFields_cons, if_pos hpublic, hmiddle, List.cons_append]
        · refine .inl ⟨front, name', back, fun value ↦ ?_⟩
          rw [List.cons_append, publicFields_cons, if_neg hpublic, hmiddle]
      · refine .inr ⟨if isPublic name then (name, first) :: fields else fields, fun value ↦ ?_⟩
        rw [List.cons_append, publicFields_cons, hmiddle]

/-! ### One iteration in another order -/

private theorem TextStable.reorder {value value' : ConfigValue} (h : TextStable py value)
    (hreorder : Reorder value value') : TextStable py value' := by
  intro value'' hreorder'
  rw [h value'' (hreorder.trans hreorder'), h value' hreorder]

private theorem reorder_of_step {value value' : ConfigValue} (h : ReorderStep value value') :
    Reorder value value' :=
  Relation.ReflTransGen.single h

private theorem forall_mem_replace {α : Type} {P : α → Prop} {before after : List α} {a b : α}
    (h : ∀ x ∈ before ++ a :: after, P x) (hb : P b) : ∀ x ∈ before ++ b :: after, P x := by
  intro x hx
  rcases List.mem_append.mp hx with hx | hx
  · exact h x (List.mem_append_left _ hx)
  · rcases List.mem_cons.mp hx with rfl | hx
    · exact hb
    · exact h x (List.mem_append_right _ (List.mem_cons_of_mem _ hx))

private theorem mem_middle {α : Type} (before after : List α) (a : α) : a ∈ before ++ a :: after :=
  List.mem_append_right _ List.mem_cons_self

private theorem noCollisions_of_flatMap {α : Type} {f : α → List Bytes} {l : List α}
    (h : NoCollisions (l.flatMap f)) {a : α} (ha : a ∈ l) : NoCollisions (f a) :=
  h.mono fun _ hx ↦ List.mem_flatMap.mpr ⟨a, ha, hx⟩

private theorem normalField_congr {name : String} {a b : ConfigValue}
    (h : normal py a = normal py b) :
    normalField py (name, a) = normalField py (name, b) := by
  rw [normalField, normalField, h]

private theorem sublist_publicFields (names : List String) (values : List ConfigValue) :
    ((publicFields names values).map Prod.fst).Sublist names := by
  induction names generalizing values with
  | nil => exact List.Sublist.refl _
  | cons name names ih =>
    cases values with
    | nil => exact List.nil_sublist _
    | cons value values =>
      rw [publicFields_cons]
      split
      · exact (ih values).cons_cons name
      · exact (ih values).cons name

/-- The fields of an object whose attributes are in another order. -/
theorem normal_fields_perm {names : AttributeNames} {values : List ConfigValue}
    {fields : List (String × ConfigValue)}
    (h : (publicFields names.toList values).Perm fields) :
    ((publicFields names.toList values).mapM (normalField py)).map sortedObj =
      (fields.mapM (normalField py)).map sortedObj := by
  refine map_mapM_perm h fun as bs has hperm ↦ sortedObj_perm hperm ?_
  rw [names_normalField has]
  exact names.nodup.sublist (sublist_publicFields names.toList values)

/-- A reordered value has the normal form, stable texts and no new input of the hash. -/
structure Unchanged (py : Interpreter) (value value' : ConfigValue) : Prop where
  normal : normal py value' = normal py value
  stable : TextsStable py value'
  inputs : hashInputs py value' ⊆ hashInputs py value

private theorem flatMap_replace {α : Type} {f : α → List Bytes} {before after : List α} {a b : α}
    (h : f b ⊆ f a) :
    (before ++ b :: after).flatMap f ⊆ (before ++ a :: after).flatMap f := by
  rw [List.flatMap_append, List.flatMap_append, List.flatMap_cons, List.flatMap_cons]
  intro x hx
  simp only [List.mem_append] at hx ⊢
  exact hx.imp_right fun hx ↦ hx.imp_left fun hx ↦ h hx

private theorem flatMap_perm {α : Type} {f : α → List Bytes} {l l' : List α} (h : l.Perm l') :
    l'.flatMap f ⊆ l.flatMap f := by
  intro x hx
  obtain ⟨a, ha, hx⟩ := List.mem_flatMap.mp hx
  exact List.mem_flatMap.mpr ⟨a, h.mem_iff.mpr ha, hx⟩

private theorem namedEntries_middle (before after : List (ConfigValue × ConfigValue))
    (key item : ConfigValue) :
    namedEntries py (before ++ (key, item) :: after) =
      namedEntries py before ++ (pyStr py key, item) :: namedEntries py after := by
  unfold namedEntries
  rw [List.map_append, List.map_cons]

private theorem publicFields_eq_nil (names : List String) (before after : List ConfigValue)
    (a b : ConfigValue) : publicFields names (before ++ a :: after) = [] ↔
      publicFields names (before ++ b :: after) = [] := by
  rcases publicFields_middle names before after with
    ⟨front, name, back, hmiddle⟩ | ⟨fields, hmiddle⟩
  · rw [hmiddle a, hmiddle b]
    simp
  · rw [hmiddle a, hmiddle b]

/-- An item of a list or a tuple is reordered. -/
theorem unchanged_item {whole : List ConfigValue → ConfigValue} {before after : List ConfigValue}
    {a b : ConfigValue} (hstable : TextsStable py (whole (before ++ a :: after)))
    (hsha : NoCollisions (hashInputs py (whole (before ++ a :: after))))
    (ih : TextsStable py a → NoCollisions (hashInputs py a) → Unchanged py a b)
    (hnormal : ∀ values, normal py (whole values) = (values.mapM (normal py)).map .arr)
    (htexts : ∀ values, TextsStable py (whole values) ↔ ItemsStable py values)
    (hinputs : ∀ values, hashInputs py (whole values) = hashInputsItems py values) :
    Unchanged py (whole (before ++ a :: after)) (whole (before ++ b :: after)) := by
  rw [htexts, itemsStable_iff] at hstable
  rw [hinputs, hashInputsItems_eq] at hsha
  obtain ⟨hitem, hstable', hinputs'⟩ := ih (hstable a (mem_middle before after a))
    (noCollisions_of_flatMap hsha (mem_middle before after a))
  refine ⟨?_, (htexts _).mpr (itemsStable_iff.mpr (forall_mem_replace hstable hstable')), ?_⟩
  · rw [hnormal, hnormal, mapM_congr_at hitem]
  · rw [hinputs, hinputs, hashInputsItems_eq, hashInputsItems_eq]
    exact flatMap_replace hinputs'

/-- The value of a field is reordered. -/
theorem unchanged_field {names : List String} {before after : List ConfigValue} {a b : ConfigValue}
    (hstable : ∀ p ∈ publicFields names (before ++ a :: after), TextsStable py p.2)
    (hsha : NoCollisions ((publicFields names (before ++ a :: after)).flatMap fun p ↦
      hashInputs py p.2))
    (ih : TextsStable py a → NoCollisions (hashInputs py a) → Unchanged py a b) :
    (publicFields names (before ++ b :: after)).mapM (normalField py) =
      (publicFields names (before ++ a :: after)).mapM (normalField py) ∧
    (∀ p ∈ publicFields names (before ++ b :: after), TextsStable py p.2) ∧
    ((publicFields names (before ++ b :: after)).flatMap fun p ↦ hashInputs py p.2) ⊆
      (publicFields names (before ++ a :: after)).flatMap fun p ↦ hashInputs py p.2 := by
  rcases publicFields_middle names before after with
    ⟨front, name, back, hmiddle⟩ | ⟨fields, hmiddle⟩
  · rw [hmiddle a] at hsha hstable
    obtain ⟨hnormal, hstable', hinputs⟩ := ih (hstable _ (mem_middle front back (name, a)))
      (noCollisions_of_flatMap hsha (mem_middle front back (name, a)))
    rw [hmiddle a, hmiddle b]
    exact ⟨mapM_congr_at (normalField_congr hnormal), forall_mem_replace hstable hstable',
      flatMap_replace hinputs⟩
  · rw [hmiddle a] at hstable
    rw [hmiddle a, hmiddle b]
    exact ⟨rfl, hstable, List.Subset.refl _⟩

/-- One iteration in another order changes nothing when the texts are stable. -/
theorem ReorderStep.unchanged {value value' : ConfigValue} (h : ReorderStep value value')
    (hstable : TextsStable py value) (hsha : NoCollisions (hashInputs py value)) :
    Unchanged py value value' := by
  induction h with
  | elements hperm =>
    rw [TextsStable, itemsStable_iff] at hstable
    refine ⟨?_, itemsStable_iff.mpr fun value hvalue ↦ hstable value (hperm.mem_iff.mpr hvalue), ?_⟩
    · rw [normal_set, normal_set]
      symm
      refine map_mapM_perm hperm fun as bs has hab ↦ ?_
      rw [sortedByHash_perm hab (itemHash_inj has hsha)]
    · intro input hinput
      rw [mem_hashInputs_set, hashInputsItems_eq] at hinput ⊢
      refine hinput.imp (fun h ↦ flatMap_perm hperm h) fun ⟨items, hitems, item, hitem, hbytes⟩ ↦ ?_
      obtain ⟨items', hitems', hperm'⟩ := mapM_perm hperm.symm hitems
      exact ⟨items', hitems', item, hperm'.mem_iff.mp hitem, hbytes⟩
  | @entries entries entries' hperm =>
    rw [TextsStable, entriesStable_iff] at hstable
    refine ⟨?_, entriesStable_iff.mpr fun p hp ↦ hstable p (hperm.mem_iff.mpr hp), ?_⟩
    · have hnamed : (namedEntries py entries).Perm (namedEntries py entries') := hperm.map _
      have hnodup := (hnamed.map Prod.fst).nodup_iff
      rw [normal_mapping, normal_mapping]
      split
      · next hn =>
        have hn' := hnodup.mpr hn
        rw [if_pos hn']
        symm
        refine map_mapM_perm hnamed fun as bs has hab ↦ sortedObj_perm hab ?_
        rw [names_normalField has]
        exact hn'
      · next hn => rw [if_neg (mt hnodup.mp hn)]
    · rw [hashInputs, hashInputs, hashInputsEntries_eq, hashInputsEntries_eq]
      exact flatMap_perm hperm
  | @attributes type names names' values values' hlength hlength' hperm =>
    have hfields : (publicFields names.toList values).Perm (publicFields names'.toList values') :=
      hperm.filter _
    have hreorder : Reorder (.object type names values) (.object type names' values') :=
      reorder_of_step (.attributes hlength hlength' hperm)
    rw [textsStable_object] at hstable
    have hnil : publicFields names'.toList values' = [] ↔ publicFields names.toList values = [] :=
      ⟨fun h ↦ (h ▸ hfields).eq_nil, fun h ↦ (h ▸ hfields).symm.eq_nil⟩
    refine ⟨?_, textsStable_object.mpr ⟨fun p hp ↦ hstable.1 p (hfields.mem_iff.mpr hp),
      fun h ↦ (hstable.2 (hnil.mp h)).reorder hreorder⟩, ?_⟩
    · rw [normal_object, normal_object]
      by_cases hpublic : publicFields names.toList values = []
      · rw [if_neg (not_not.mpr (hnil.mpr hpublic)), if_neg (not_not.mpr hpublic),
          hstable.2 hpublic _ hreorder]
      · rw [if_pos (mt hnil.mp hpublic), if_pos hpublic, normal_fields_perm hfields]
    · rw [hashInputs, hashInputs, hashInputsFields_eq, hashInputsFields_eq]
      exact flatMap_perm hfields
  | inEnum _ ih =>
    obtain ⟨hnormal, hstable', hinputs⟩ := ih hstable hsha
    exact ⟨by rw [normal_enum, normal_enum, hnormal], hstable', hinputs⟩
  | inDict _ ih =>
    obtain ⟨hnormal, hstable', hinputs⟩ := ih hstable hsha
    exact ⟨by rw [normal_toDict, normal_toDict, hnormal], hstable', hinputs⟩
  | @inKey before after a b item hstep ih =>
    rw [TextsStable, entriesStable_iff] at hstable
    obtain ⟨hkey, hitem⟩ := hstable _ (mem_middle before after (a, item))
    refine ⟨?_, entriesStable_iff.mpr
      (forall_mem_replace hstable ⟨hkey.reorder (reorder_of_step hstep), hitem⟩), ?_⟩
    · rw [normal_mapping, normal_mapping, namedEntries_middle, namedEntries_middle,
        hkey b (reorder_of_step hstep)]
    · rw [hashInputs, hashInputs, hashInputsEntries_eq, hashInputsEntries_eq]
      exact flatMap_replace (List.Subset.refl _)
  | @inEntry before after key a b hstep ih =>
    rw [TextsStable, entriesStable_iff] at hstable
    rw [hashInputs, hashInputsEntries_eq] at hsha
    obtain ⟨hkey, hitem⟩ := hstable _ (mem_middle before after (key, a))
    obtain ⟨hnormal, hstable', hinputs⟩ := ih hitem
      (noCollisions_of_flatMap hsha (mem_middle before after (key, a)))
    refine ⟨?_, entriesStable_iff.mpr (forall_mem_replace hstable ⟨hkey, hstable'⟩), ?_⟩
    · rw [normal_mapping, normal_mapping, namedEntries_middle, namedEntries_middle,
        mapM_congr_at (normalField_congr hnormal)]
      simp only [List.map_append, List.map_cons]
    · rw [hashInputs, hashInputs, hashInputsEntries_eq, hashInputsEntries_eq]
      exact flatMap_replace hinputs
  | inList hstep ih =>
    exact unchanged_item hstable hsha ih normal_list (fun _ ↦ Iff.rfl) fun _ ↦ rfl
  | inTuple hstep ih =>
    exact unchanged_item hstable hsha ih normal_tuple (fun _ ↦ Iff.rfl) fun _ ↦ rfl
  | @inSet frozen before after a b hstep ih =>
    rw [TextsStable, itemsStable_iff] at hstable
    have hparts : NoCollisions ((before ++ a :: after).flatMap (hashInputs py)) := by
      rw [hashInputs, hashInputsItems_eq] at hsha
      exact hsha.mono (List.subset_append_left _ _)
    obtain ⟨hnormal, hstable', hinputs⟩ := ih (hstable a (mem_middle before after a))
      (noCollisions_of_flatMap hparts (mem_middle before after a))
    refine ⟨?_, itemsStable_iff.mpr (forall_mem_replace hstable hstable'), ?_⟩
    · rw [normal_set, normal_set, mapM_congr_at hnormal]
    · intro input hinput
      rw [mem_hashInputs_set, hashInputsItems_eq, mapM_congr_at hnormal] at hinput
      rw [mem_hashInputs_set, hashInputsItems_eq]
      exact hinput.imp_left fun h ↦ flatMap_replace hinputs h
  | @inField type names before after a b hstep ih =>
    rw [TextsStable, fieldsStable_iff] at hstable
    rw [hashInputs, hashInputsFields_eq] at hsha
    obtain ⟨hnormal, hstable', hinputs⟩ := unchanged_field hstable hsha ih
    refine ⟨?_, fieldsStable_iff.mpr hstable', ?_⟩
    · rw [normal_dataclass, normal_dataclass, hnormal]
    · rw [hashInputs, hashInputs, hashInputsFields_eq, hashInputsFields_eq]
      exact hinputs
  | @inAttribute type names before after a b hstep ih =>
    have hreorder : Reorder (.object type names (before ++ a :: after))
        (.object type names (before ++ b :: after)) := reorder_of_step (.inAttribute hstep)
    rw [textsStable_object] at hstable
    rw [hashInputs, hashInputsFields_eq] at hsha
    obtain ⟨hnormal, hstable', hinputs⟩ := unchanged_field hstable.1 hsha ih
    have hnil := publicFields_eq_nil names.toList before after a b
    refine ⟨?_, textsStable_object.mpr ⟨hstable', fun h ↦ (hstable.2 (hnil.mpr h)).reorder hreorder⟩,
      ?_⟩
    · rw [normal_object, normal_object, hnormal]
      by_cases hpublic : publicFields names.toList (before ++ a :: after) = []
      · rw [if_neg (not_not.mpr (hnil.mp hpublic)), if_neg (not_not.mpr hpublic),
          hstable.2 hpublic _ hreorder]
      · rw [if_pos (mt hnil.mpr hpublic), if_pos hpublic]
    · rw [hashInputs, hashInputs, hashInputsFields_eq, hashInputsFields_eq]
      exact hinputs

/-- Any number of iterations in another order change nothing when the texts are stable. -/
theorem Reorder.unchanged {value value' : ConfigValue} (h : Reorder value value')
    (hstable : TextsStable py value) (hsha : NoCollisions (hashInputs py value)) :
    Unchanged py value value' := by
  induction h with
  | refl => exact ⟨rfl, hstable, List.Subset.refl _⟩
  | tail _ hstep ih =>
    obtain ⟨hnormal, hstable', hinputs⟩ := ih
    obtain ⟨hnormal', hstable'', hinputs'⟩ := hstep.unchanged hstable' (hsha.mono hinputs)
    exact ⟨hnormal'.trans hnormal, hstable'', List.Subset.trans hinputs' hinputs⟩

/-! ### Parts of a value whose bytes do not depend on the order -/

/-- The normal form exists and is the same for every order. -/
def OrderFree (py : Interpreter) (value : ConfigValue) : Prop :=
  ∃ normalized, ∀ value', Reorder value value' → normal py value' = some normalized

private theorem perm_of_sortedObj {fields fields' : List (String × Json)}
    (h : sortedObj fields = sortedObj fields') : fields.Perm fields' := by
  have hsorted := Json.obj.inj h
  exact (List.perm_insertionSort _ fields).symm.trans
    (hsorted ▸ List.perm_insertionSort _ fields')

private theorem sortedObj_second {p : String × Json} {name : String} {a b : Json}
    (h : sortedObj [p, (name, a)] = sortedObj [p, (name, b)]) : a = b := by
  have hperm := (List.perm_cons p).mp (perm_of_sortedObj h)
  exact (Prod.mk.inj (List.singleton_perm_singleton.mp hperm)).2

private theorem perm_of_sortedByHash {items items' : List Json}
    (h : sortedByHash items = sortedByHash items') : items.Perm items' := by
  have hperm : (sortedByHash items').Perm items' := List.perm_insertionSort _ _
  rw [← h] at hperm
  exact (List.perm_insertionSort _ items).symm.trans hperm

private theorem Reorder.within {w : ConfigValue → ConfigValue}
    (hstep : ∀ {a b}, ReorderStep a b → ReorderStep (w a) (w b)) {a b : ConfigValue}
    (h : Reorder a b) : Reorder (w a) (w b) :=
  Relation.ReflTransGen.lift w (fun _ _ hab ↦ hstep hab) _ _ h

/-- A part whose normal form can be read off that of the whole is free of the order too. -/
theorem OrderFree.part {w : ConfigValue → ConfigValue} {part : ConfigValue}
    (h : OrderFree py (w part))
    (hstep : ∀ {a b}, ReorderStep a b → ReorderStep (w a) (w b))
    (hread : ∀ part' normalized, normal py (w part) = some normalized →
      normal py (w part') = some normalized →
      (∃ item, normal py part = some item) ∧ normal py part = normal py part') :
    OrderFree py part := by
  obtain ⟨normalized, hnormal⟩ := h
  have hwhole := hnormal _ .refl
  obtain ⟨⟨item, hitem⟩, -⟩ := hread part normalized hwhole hwhole
  refine ⟨item, fun part' hreorder ↦ ?_⟩
  obtain ⟨-, heq⟩ := hread part' normalized hwhole (hnormal _ (Reorder.within hstep hreorder))
  rw [← heq, hitem]

/-- The parts of a list, a tuple or a set. -/
theorem OrderFree.item {whole : List ConfigValue → ConfigValue} {g : List Json → Json}
    (hwhole : ∀ values, normal py (whole values) = (values.mapM (normal py)).map g)
    (hg : ∀ as bs, g as = g bs → as.Perm bs)
    (hstep : ∀ {before after a b}, ReorderStep a b →
      ReorderStep (whole (before ++ a :: after)) (whole (before ++ b :: after)))
    {values : List ConfigValue} (h : OrderFree py (whole values)) :
    ∀ value ∈ values, OrderFree py value := by
  intro value hvalue
  obtain ⟨before, after, rfl⟩ := List.append_of_mem hvalue
  refine OrderFree.part (w := fun value ↦ whole (before ++ value :: after)) h hstep ?_
  intro value' normalized hvalue hvalue'
  rw [hwhole] at hvalue hvalue'
  exact eq_of_map_mapM hg hvalue hvalue'

/-- A field of an object determines the normal form of its value. -/
theorem normal_of_normalField {name : String} {a b : ConfigValue}
    (h : (∃ field, normalField py (name, a) = some field) ∧
      normalField py (name, a) = normalField py (name, b)) :
    (∃ item, normal py a = some item) ∧ normal py a = normal py b := by
  obtain ⟨⟨field, hfield⟩, heq⟩ := h
  obtain ⟨item, hitem, -⟩ := Option.map_eq_some_iff.mp hfield
  exact ⟨⟨item, hitem⟩, Option.map_injective (Prod.mk_right_injective name) heq⟩

/-- A public field is the value at one place. -/
theorem publicFields_split {names : List String} {values : List ConfigValue}
    {p : String × ConfigValue} (h : p ∈ publicFields names values) :
    ∃ before after front back, values = before ++ p.2 :: after ∧ ∀ value,
      publicFields names (before ++ value :: after) = front ++ (p.1, value) :: back := by
  induction names generalizing values with
  | nil => cases h
  | cons name names ih =>
    cases values with
    | nil => cases h
    | cons first values =>
      rw [publicFields_cons] at h
      by_cases hpublic : isPublic name = true
      · rw [if_pos hpublic] at h
        rcases List.mem_cons.mp h with rfl | h
        · refine ⟨[], values, [], publicFields names values, rfl, fun value ↦ ?_⟩
          rw [List.nil_append, publicFields_cons, if_pos hpublic, List.nil_append]
        · obtain ⟨before, after, front, back, rfl, hsplit⟩ := ih h
          refine ⟨first :: before, after, (name, first) :: front, back, rfl, fun value ↦ ?_⟩
          rw [List.cons_append, publicFields_cons, if_pos hpublic, hsplit, List.cons_append]
      · rw [if_neg hpublic] at h
        obtain ⟨before, after, front, back, rfl, hsplit⟩ := ih h
        refine ⟨first :: before, after, front, back, rfl, fun value ↦ ?_⟩
        rw [List.cons_append, publicFields_cons, if_neg hpublic, hsplit]

/-- The public fields of a dataclass, and of an object that has some. -/
theorem OrderFree.field {names : List String} {whole : List ConfigValue → ConfigValue}
    {g : List (String × Json) → Json}
    (hwhole : ∀ values, publicFields names values ≠ [] →
      normal py (whole values) = ((publicFields names values).mapM (normalField py)).map g)
    (hg : ∀ as bs, g as = g bs → as.Perm bs)
    (hstep : ∀ {before after a b}, ReorderStep a b →
      ReorderStep (whole (before ++ a :: after)) (whole (before ++ b :: after)))
    {values : List ConfigValue} (h : OrderFree py (whole values)) :
    ∀ p ∈ publicFields names values, OrderFree py p.2 := by
  intro p hp
  obtain ⟨before, after, front, back, rfl, hsplit⟩ := publicFields_split hp
  refine OrderFree.part (w := fun value ↦ whole (before ++ value :: after)) h hstep ?_
  intro value' normalized hvalue hvalue'
  have hne : ∀ value, publicFields names (before ++ value :: after) ≠ [] := by
    intro value
    rw [hsplit]
    simp
  rw [hwhole _ (hne _), hsplit] at hvalue hvalue'
  exact normal_of_normalField (eq_of_map_mapM hg hvalue hvalue')

private theorem OrderFree.entry {entries : List (ConfigValue × ConfigValue)}
    (h : OrderFree py (.mapping entries)) :
    ∀ p ∈ entries, TextStable py p.1 ∧ OrderFree py p.2 := by
  have hread : ∀ {entries normalized}, normal py (.mapping entries) = some normalized →
      ((namedEntries py entries).mapM (normalField py)).map sortedObj = some normalized := by
    intro entries normalized hentries
    rw [normal_mapping] at hentries
    split at hentries
    · exact hentries
    · cases hentries
  intro p hp
  obtain ⟨key, item⟩ := p
  obtain ⟨before, after, rfl⟩ := List.append_of_mem hp
  constructor
  · intro key' hreorder
    obtain ⟨normalized, hnormal⟩ := h
    have hlift : Reorder (.mapping (before ++ (key, item) :: after))
        (.mapping (before ++ (key', item) :: after)) :=
      Reorder.within (w := fun key ↦ .mapping (before ++ (key, item) :: after)) .inKey hreorder
    have hkey := hread (hnormal _ .refl)
    have hkey' := hread (hnormal _ hlift)
    rw [namedEntries_middle] at hkey hkey'
    obtain ⟨⟨field, hfield⟩, heq⟩ := eq_of_map_mapM (fun _ _ ↦ perm_of_sortedObj) hkey hkey'
    rw [hfield] at heq
    obtain ⟨_, _, rfl⟩ := Option.map_eq_some_iff.mp hfield
    obtain ⟨_, _, heq⟩ := Option.map_eq_some_iff.mp heq.symm
    exact (Prod.mk.inj heq).1
  · refine OrderFree.part (w := fun item ↦ .mapping (before ++ (key, item) :: after)) h
      .inEntry ?_
    intro item' normalized hitem hitem'
    have hitem := hread hitem
    have hitem' := hread hitem'
    rw [namedEntries_middle] at hitem hitem'
    exact normal_of_normalField (eq_of_map_mapM (fun _ _ ↦ perm_of_sortedObj) hitem hitem')

/-- An object without public attributes is reordered to such an object. -/
theorem Reorder.object {type : String} {names : AttributeNames} {values : List ConfigValue}
    {value : ConfigValue} (h : Reorder (.object type names values) value)
    (hnil : publicFields names.toList values = []) :
    ∃ names' values', value = .object type names' values' ∧
      publicFields names'.toList values' = [] := by
  induction h with
  | refl => exact ⟨names, values, rfl, hnil⟩
  | tail _ hstep ih =>
    obtain ⟨names', values', rfl, hnil'⟩ := ih
    cases hstep with
    | @attributes _ _ names'' _ values'' _ _ hperm =>
      have hfields : (publicFields names'.toList values').Perm
          (publicFields names''.toList values'') := hperm.filter _
      rw [hnil'] at hfields
      exact ⟨names'', values'', rfl, hfields.symm.eq_nil⟩
    | @inAttribute _ _ before after a b _ =>
      refine ⟨names', before ++ b :: after, rfl, ?_⟩
      rcases publicFields_middle names'.toList before after with
        ⟨front, name, back, hmiddle⟩ | ⟨fields, hmiddle⟩
      · rw [hmiddle a] at hnil'
        simp at hnil'
      · rw [hmiddle b, ← hmiddle a, hnil']

private theorem OrderFree.rendered {type : String} {names : AttributeNames}
    {values : List ConfigValue} (h : OrderFree py (.object type names values))
    (hnil : publicFields names.toList values = []) :
    TextStable py (.object type names values) := by
  obtain ⟨normalized, hnormal⟩ := h
  -- the text stands in the normal form
  have hread : ∀ {names values}, normal py (.object type names values) = some normalized →
      publicFields names.toList values = [] → sortedObj [("type", .str type),
        ("value", .str (pyStr py (.object type names values)))] = normalized := by
    intro names values hobject hnil
    rw [normal_object, if_neg (not_not.mpr hnil)] at hobject
    split at hobject
    · cases hobject
    · exact Option.some.inj hobject
  intro value' hreorder
  obtain ⟨names', values', rfl, hnil'⟩ := hreorder.object hnil
  have hthis := hread (hnormal _ .refl) hnil
  have hother := hread (hnormal _ hreorder) hnil'
  exact Json.str.inj (sortedObj_second (hother.trans hthis.symm))

mutual

private theorem OrderFree.textsStable (value : ConfigValue) (h : OrderFree py value) :
    TextsStable py value := by
  match value with
  | .none | .bool _ | .int _ | .str _ | .intEnum _ _ | .strEnum _ _ | .float _ | .bytes _
  | .path _ | .type _ | .callable _ => trivial
  | .enum type value =>
    refine OrderFree.textsStable value (OrderFree.part (w := .enum type) h .inEnum ?_)
    intro value' normalized hvalue hvalue'
    rw [normal_enum] at hvalue hvalue'
    obtain ⟨item, hitem, hnormalized⟩ := Option.map_eq_some_iff.mp hvalue
    obtain ⟨item', hitem', hnormalized'⟩ := Option.map_eq_some_iff.mp hvalue'
    rw [hitem, hitem', sortedObj_second (hnormalized.trans hnormalized'.symm)]
    exact ⟨⟨item', rfl⟩, rfl⟩
  | .toDict type dict =>
    refine OrderFree.textsStable dict (OrderFree.part (w := .toDict type) h .inDict ?_)
    intro dict' normalized hdict hdict'
    rw [normal_toDict] at hdict hdict'
    exact ⟨⟨normalized, hdict⟩, hdict.trans hdict'.symm⟩
  | .mapping entries => exact entriesStable_of_orderFree entries h.entry
  | .list items =>
    exact itemsStable_of_orderFree items
      (OrderFree.item normal_list (fun _ _ h ↦ by cases h; rfl) .inList h)
  | .tuple items =>
    exact itemsStable_of_orderFree items
      (OrderFree.item normal_tuple (fun _ _ h ↦ by cases h; rfl) .inTuple h)
  | .set frozen items =>
    exact itemsStable_of_orderFree items (OrderFree.item (normal_set frozen)
      (fun _ _ h ↦ perm_of_sortedByHash (Json.arr.inj h)) .inSet h)
  | .dataclass type names values =>
    exact fieldsStable_of_orderFree names.toList values
      (OrderFree.field (fun values _ ↦ normal_dataclass type names values)
        (fun _ _ ↦ perm_of_sortedObj) .inField h)
  | .object type names values =>
    refine textsStable_object.mpr ⟨fieldsStable_iff.mp ?_, h.rendered⟩
    refine fieldsStable_of_orderFree names.toList values
      (OrderFree.field (g := fun fields ↦ sortedObj [("type", .str type),
        ("fields", sortedObj fields)]) (fun values hne ↦ ?_) (fun as bs hg ↦ ?_) .inAttribute h)
    · rw [normal_object, if_pos hne, Option.map_map]
      rfl
    · exact perm_of_sortedObj (sortedObj_second hg)

/-- Items that no order can change are stable. -/
theorem itemsStable_of_orderFree (values : List ConfigValue)
    (h : ∀ value ∈ values, OrderFree py value) : ItemsStable py values := by
  match values with
  | [] => trivial
  | value :: values =>
    rw [List.forall_mem_cons] at h
    exact ⟨OrderFree.textsStable value h.1, itemsStable_of_orderFree values h.2⟩

/-- Entries that no order can change are stable. -/
theorem entriesStable_of_orderFree (entries : List (ConfigValue × ConfigValue))
    (h : ∀ p ∈ entries, TextStable py p.1 ∧ OrderFree py p.2) : EntriesStable py entries := by
  match entries with
  | [] => trivial
  | (key, value) :: entries =>
    rw [List.forall_mem_cons] at h
    exact ⟨h.1.1, OrderFree.textsStable value h.1.2, entriesStable_of_orderFree entries h.2⟩

/-- Fields that no order can change are stable. -/
theorem fieldsStable_of_orderFree (names : List String) (values : List ConfigValue)
    (h : ∀ p ∈ publicFields names values, OrderFree py p.2) : FieldsStable py names values := by
  match names, values with
  | [], _ => simp [FieldsStable]
  | _ :: _, [] => trivial
  | name :: names, value :: values =>
    rw [publicFields_cons] at h
    by_cases hpublic : isPublic name = true
    · rw [if_pos hpublic, List.forall_mem_cons] at h
      exact ⟨fun _ ↦ OrderFree.textsStable value h.1, fieldsStable_of_orderFree names values h.2⟩
    · rw [if_neg hpublic] at h
      exact ⟨fun hp ↦ absurd hp hpublic, fieldsStable_of_orderFree names values h⟩

end

end

/-! ### The bytes of a configuration -/

/-- Texts as keys are stable. -/
theorem textStable_str (py : Interpreter) (s : String) : TextStable py (.str s) := by
  intro value' hreorder
  have heq : value' = .str s := by
    induction hreorder with
    | refl => rfl
    | tail _ hstep ih =>
      subst ih
      cases hstep
  rw [heq]

/-- The entries of two mappings with the same bytes are the same, once normalized. -/
theorem mapping_entries_of_bytes {py : Interpreter} {entries entries' : List (ConfigValue × ConfigValue)}
    {fields fields' : List (String × Json)}
    (h : jsonSafe py (.mapping entries) = .ok (.obj fields))
    (h' : jsonSafe py (.mapping entries') = .ok (.obj fields'))
    (hbytes : configBytes py (.mapping entries) = configBytes py (.mapping entries')) :
    (fields.map fun p ↦ (p.1, canonicalJson p.2)).Perm
      (fields'.map fun p ↦ (p.1, canonicalJson p.2)) := by
  have hnormal := configBytes_eq_iff.mp hbytes
  rw [normal, normal, h, h'] at hnormal
  have hperm : (sortedFields fields).Perm (sortedFields fields') :=
    perm_of_sortedObj (Option.some.inj hnormal)
  have hmap : ∀ fields : List (String × Json), ((sortedFields fields).map fun p ↦
      (p.1, canonicalJson p.2)) = fields.map fun p ↦ (p.1, canonicalJson p.2) := by
    intro fields
    rw [sortedFields_eq_map, List.map_map]
    apply List.map_congr_left
    intro p _
    dsimp only [Function.comp]
    rw [canonicalJson_sorted]
  have hall := hperm.map fun p ↦ (p.1, canonicalJson p.2)
  rw [hmap, hmap] at hall
  exact hall

/-- The items of two sets with the same bytes are the same, once normalized. -/
theorem set_items_of_bytes {py : Interpreter} {frozen frozen' : Bool} {values values' : List ConfigValue}
    {items items' : List Json} (h : jsonSafeItems py values = .ok items)
    (h' : jsonSafeItems py values' = .ok items')
    (hbytes : configBytes py (.set frozen values) = configBytes py (.set frozen' values')) :
    (items.map canonicalJson).Perm (items'.map canonicalJson) := by
  have hnormal := configBytes_eq_iff.mp hbytes
  rw [normal_set, normal_set, mapM_normal, mapM_normal, h, h'] at hnormal
  have hperm : (sortedItems items).Perm (sortedItems items') :=
    perm_of_sortedByHash (Json.arr.inj (Option.some.inj hnormal))
  have hmap : ∀ items : List Json, (sortedItems items).map canonicalJson =
      items.map canonicalJson := by
    intro items
    rw [sortedItems_eq_map, List.map_map]
    apply List.map_congr_left
    intro item _
    exact canonicalJson_sorted item
  have hall := hperm.map canonicalJson
  rw [hmap, hmap] at hall
  exact hall

/-- The bytes of a configuration do not depend on the order of iteration when the texts of its keys,
and of its objects without public attributes, do not; for a configuration that has bytes this is the
exact condition. Mappings and sets that differ once normalized have different bytes. -/
theorem config_bytes_order_free (py : Interpreter) :
    (∀ value, NoCollisions (hashInputs py value) →
      (TextsStable py value →
        ∀ value', Reorder value value' → configBytes py value' = configBytes py value) ∧
      (configBytes py value ≠ Option.none →
        ((∀ value', Reorder value value' → configBytes py value' = configBytes py value) ↔
          TextsStable py value))) ∧
    (∀ entries entries' fields fields', jsonSafe py (.mapping entries) = .ok (.obj fields) →
      jsonSafe py (.mapping entries') = .ok (.obj fields') →
      configBytes py (.mapping entries) = configBytes py (.mapping entries') →
      (fields.map fun p ↦ (p.1, canonicalJson p.2)).Perm
        (fields'.map fun p ↦ (p.1, canonicalJson p.2))) ∧
    ∀ frozen frozen' values values' items items', jsonSafeItems py values = .ok items →
      jsonSafeItems py values' = .ok items' →
      configBytes py (.set frozen values) = configBytes py (.set frozen' values') →
      (items.map canonicalJson).Perm (items'.map canonicalJson) := by
  refine ⟨?_, fun _ _ _ _ ↦ mapping_entries_of_bytes, fun _ _ _ _ _ _ ↦ set_items_of_bytes⟩
  intro value hsha
  have hsame : TextsStable py value →
      ∀ value', Reorder value value' → configBytes py value' = configBytes py value := by
    intro hstable value' hreorder
    exact configBytes_eq_iff.mpr (hreorder.unchanged hstable hsha).normal
  refine ⟨hsame, fun hsome ↦ ⟨fun hfree ↦ ?_, hsame⟩⟩
  rw [configBytes_eq, ne_eq, Option.map_eq_none_iff] at hsome
  obtain ⟨normalized, hnormal⟩ := Option.ne_none_iff_exists'.mp hsome
  refine OrderFree.textsStable value ⟨normalized, fun value' hreorder ↦ ?_⟩
  rw [configBytes_eq_iff.mp (hfree value' hreorder), hnormal]

/-- An interpreter that prints ASCII only, with classes that print nothing. -/
def asciiInterpreter : Interpreter where
  printable _ := false
  wordChar c := c.isAlphanum || c = '_'
  objectStr _ := ""
  objectRepr _ := ""

/-- `{"sizes": {1, 2}}`. -/
def sampleConfig : ConfigValue :=
  .mapping [(.str "sizes", .set false [.int 1, .int 2])]

/-- A set in the other order gives the same bytes. -/
theorem config_bytes_sampleConfig :
    configBytes asciiInterpreter (.mapping [(.str "sizes", .set false [.int 2, .int 1])]) =
      configBytes asciiInterpreter sampleConfig := by
  have hsha : NoCollisions (hashInputs asciiInterpreter sampleConfig) :=
    noCollisions_of_nodup (by decide +kernel)
  have hstable : TextsStable asciiInterpreter sampleConfig :=
    ⟨textStable_str asciiInterpreter "sizes", ⟨trivial, trivial, trivial⟩, trivial⟩
  have hreorder : Reorder sampleConfig (.mapping [(.str "sizes", .set false [.int 2, .int 1])]) :=
    reorder_of_step (@ReorderStep.inEntry [] [] _ _ _ (.elements (.swap _ _ _)))
  exact ((config_bytes_order_free asciiInterpreter).1 sampleConfig hsha).1 hstable _ hreorder

/-- `{frozenset({"a", "b"}): 1}` has other bytes when the key is iterated as `"b"`, `"a"`. -/
theorem config_bytes_follow_key_order :
    Reorder (.mapping [(.set true [.str "a", .str "b"], .int 1)])
      (.mapping [(.set true [.str "b", .str "a"], .int 1)]) ∧
    NoCollisions (hashInputs asciiInterpreter
      (.mapping [(.set true [.str "a", .str "b"], .int 1)])) ∧
    configBytes asciiInterpreter (.mapping [(.set true [.str "b", .str "a"], .int 1)]) ≠
      configBytes asciiInterpreter (.mapping [(.set true [.str "a", .str "b"], .int 1)]) := by
  refine ⟨reorder_of_step ?_, ?_, by decide +kernel⟩
  · exact @ReorderStep.inKey [] [] _ _ _ (.elements (.swap _ _ _))
  · intro a ha
    cases ha

end SpoolCache.Connector
