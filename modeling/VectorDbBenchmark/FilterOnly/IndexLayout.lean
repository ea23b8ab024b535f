import VectorDbBenchmark.JsonEq
import VectorDbBenchmark.Kit.Fallible
import VectorDbBenchmark.Kit.Text

/-!
# The layout of a Redis index

`validate_redis_layout` and `validate_redis_vector_layout` of `src/filter_only.rs`: whether the
fields of an index are indexed as a run needs them, from what `FT.INFO` returns.  Attributes are
lists of keys and values with flags between them, or maps with a list of their flags.
-/

namespace VectorDbBenchmark.FilterOnly

open Kit Json

/-! ## Reading `FT.INFO` -/

def standaloneFlags : List String :=
  ["CASESENSITIVE", "SORTABLE", "UNF", "NOINDEX", "NOSTEM", "WITHSUFFIXTRIE", "INDEXEMPTY",
    "INDEXMISSING"]

/-- The entries of a list; a flag has no value. -/
def entriesOf : List Json → List (Json × Option Json)
  | [] => []
  | [key] => [(key, none)]
  | key :: value :: items =>
    if key.asStr.any (· ∈ standaloneFlags) then (key, none) :: entriesOf (value :: items)
    else (key, some value) :: entriesOf items

def ftInfoEntries (v : Json) : List (Json × Option Json) := entriesOf (v.asArray.getD [])

def ftInfoField (v : Json) (name : String) : Option Json :=
  match v.asObject with
  | some map => getEntry name map
  | none => (ftInfoEntries v).findSome? fun e ↦ if e.1.asStr = some name then e.2 else none

def ftInfoHasFlag (attr : Json) (flag : String) : Bool :=
  (ftInfoEntries attr).any (fun e ↦ e.1.asStr = some flag && e.2.isNone) ||
    ((ftInfoField attr "flags").bind asArray).any fun flags ↦
      flags.any fun f ↦ f.asStr = some flag

/-- `field(attr, name).and_then(Value::as_str)`. -/
def textField (attr : Json) (name : String) : Option String := (ftInfoField attr name).bind asStr

/-! ## Validation -/

/-- The kinds of fields that are indexed as tags, and as numbers. -/
def isTag (kind : Json) : Bool := kind.asStr.any (· ∈ ["keyword", "uuid", "bool"])

def isNumeric (kind : Json) : Bool := kind.asStr.any (· ∈ ["int", "float"])

def schemaFields (schema : Option Json) : List (String × Json) := (schema.bind asObject).getD []

/-- The attribute of a field. -/
def findAttribute (attributes : List Json) (name : String) : Option Json :=
  attributes.find? fun a ↦ textField a "attribute" = some name

/-- One attribute in the search for a vector field. -/
def checkType (full hasVector : Bool) (attr : Json) : Except String Bool :=
  match textField attr "type" with
  | none => .error "filter-only missing FT.INFO attribute type"
  | some kind =>
    if eqIgnoreAsciiCase kind "VECTOR" then
      if full then .ok true else .error "filter-only cannot reuse an index containing VECTOR"
    else .ok hasVector

/-- One field of the schema. -/
def checkField (attributes : List Json) (field : String × Json) : Except String Unit :=
  if !isTag field.2 && !isNumeric field.2 then .ok ()
  else
    match findAttribute attributes field.1 with
    | none => .error s!"filter-only missing indexed field {field.1}"
    | some attr =>
      if ftInfoHasFlag attr "NOINDEX" then .error s!"filter-only requires indexed field {field.1}"
      else if !isTag field.2 then
        if textField attr "type" ≠ some "NUMERIC" then
          .error s!"filter-only requires NUMERIC field {field.1}"
        else .ok ()
      else if textField attr "SEPARATOR" ≠ some ";" then
        .error s!"filter-only requires semicolon separator for {field.1}"
      else if textField attr "type" ≠ some "TAG" ∨ !ftInfoHasFlag attr "CASESENSITIVE" then
        .error s!"filter-only requires CASESENSITIVE TAG for {field.1}"
      else .ok ()

def validateRedisLayout (info : Json) (schema : Option Json) (full : Bool) : Except String Unit :=
  match (ftInfoField info "attributes").bind asArray with
  | none => .error "filter-only missing FT.INFO attributes"
  | some attributes => do
    let hasVector ← attributes.foldlM (checkType full) false
    if full && !hasVector then
      .error ("filter-only on the full layout requires an index with a VECTOR field; the index " ++
        "was not built for the full layout")
    else (schemaFields schema).forM (checkField attributes)

def validateRedisSchema (info : Json) (schema : Option Json) : Except String Unit :=
  validateRedisLayout info schema false

def validateRedisFullSchema (info : Json) (schema : Option Json) : Except String Unit :=
  validateRedisLayout info schema true

/-- One field of the schema, which must not be case-sensitive. -/
def checkVectorField (attributes : List Json) (field : String × Json) : Except String Unit :=
  if !isTag field.2 then .ok ()
  else if (findAttribute attributes field.1).any fun a ↦ ftInfoHasFlag a "CASESENSITIVE" then
    .error (s!"the index is not a `vector`-layout index: tag field {field.1} is CASESENSITIVE " ++
      "(built for the `full` or `no-vector` layout), so its results would be mislabelled; " ++
      "rebuild it without --skip-upload or run the config that built it")
  else .ok ()

def validateRedisVectorLayout (info : Json) (schema : Option Json) : Except String Unit :=
  match (ftInfoField info "attributes").bind asArray with
  | none =>
    .error ("index layout check: FT.INFO has no attributes; cannot confirm the `vector` layout")
  | some attributes => (schemaFields schema).forM (checkVectorField attributes)

/-! ## Attributes -/

/-- What an attribute is written as: keys with values, and flags anywhere between them. -/
inductive Token where
  | pair (key : String) (value : Json)
  | flag (name : String)

namespace Token

def entry : Token → Option (String × Json)
  | pair key value => some (key, value)
  | flag _ => none

def flagName : Token → Option String
  | pair _ _ => none
  | flag name => some name

/-- The items of a list. -/
def items : Token → List Json
  | pair key value => [.string key, value]
  | flag name => [.string name]

end Token

/-- An attribute of an index; its values may be any, and may spell a flag. -/
structure Attribute where
  tokens : List Token
  nodup : ((tokens.filterMap Token.entry).map Prod.fst).Nodup
  keys : ∀ e ∈ tokens.filterMap Token.entry, e.1 ∉ "flags" :: standaloneFlags
  flags : ∀ f ∈ tokens.filterMap Token.flagName, f ∈ standaloneFlags

namespace Attribute

variable (a : Attribute)

def entries : List (String × Json) := a.tokens.filterMap Token.entry

def flagNames : List String := a.tokens.filterMap Token.flagName

/-- The RESP2 encoding. -/
def resp2 : Json := .array (a.tokens.flatMap Token.items)

/-- A RESP3 encoding: a map, whatever the order of its entries. -/
def Resp3 (v : Json) : Prop :=
  ∃ es, v = .object es ∧ es.Perm (("flags", .array (a.flagNames.map .string)) :: a.entries)

/-- The text of a key. -/
def text (key : String) : Option String := (getEntry key a.entries).bind asStr

end Attribute

/-- What `FT.INFO` returns: the attributes, and what else it says of the index, which may be
encoded in one way or the other. -/
structure IndexInfo where
  attributes : List Attribute
  before : List (String × Json × Json)
  after : List (String × Json × Json)
  nodup : ((before.map Prod.fst) ++ "attributes" :: after.map Prod.fst).Nodup
  keys : ∀ e ∈ before, e.1 ∉ standaloneFlags

namespace IndexInfo

variable (info : IndexInfo)

/-- The RESP2 encoding. -/
def resp2 : Json :=
  .array ((info.before.flatMap fun e ↦ [.string e.1, e.2.1]) ++ .string "attributes" ::
    .array (info.attributes.map Attribute.resp2) ::
    info.after.flatMap fun e ↦ [.string e.1, e.2.1])

/-- A RESP3 encoding. -/
def Resp3 (v : Json) : Prop :=
  ∃ es vs, v = .object es ∧ List.Forall₂ Attribute.Resp3 info.attributes vs ∧
    es.Perm (info.before.map (fun e ↦ (e.1, e.2.2)) ++ ("attributes", .array vs) ::
      info.after.map fun e ↦ (e.1, e.2.2))

/-- The attribute of a field. -/
def find (name : String) : Option Attribute :=
  info.attributes.find? fun a ↦ a.text "attribute" = some name

/-- What the full layout asks for: a vector field, and the fields of the schema indexed as tags
that match exactly and as numbers. -/
structure IsFull (schema : Option Json) : Prop where
  vector : ∃ a ∈ info.attributes, ∃ kind, a.text "type" = some kind ∧
    eqIgnoreAsciiCase kind "VECTOR" = true
  tag : ∀ field ∈ schemaFields schema, isTag field.2 = true →
    ∃ a, info.find field.1 = some a ∧ a.text "type" = some "TAG" ∧
      a.text "SEPARATOR" = some ";" ∧ "CASESENSITIVE" ∈ a.flagNames ∧ "NOINDEX" ∉ a.flagNames
  numeric : ∀ field ∈ schemaFields schema, isNumeric field.2 = true →
    ∃ a, info.find field.1 = some a ∧ a.text "type" = some "NUMERIC" ∧ "NOINDEX" ∉ a.flagNames

end IndexInfo

/-! ## The encodings of an attribute -/

theorem entriesOf_flag {f : String} (hf : f ∈ standaloneFlags) (items : List Json) :
    entriesOf (.string f :: items) = (.string f, none) :: entriesOf items := by
  cases items with
  | nil => rfl
  | cons value items => exact if_pos (decide_eq_true hf)

theorem entriesOf_pair {key : String} (hkey : key ∉ standaloneFlags) (value : Json)
    (items : List Json) :
    entriesOf (.string key :: value :: items) = (.string key, some value) :: entriesOf items :=
  if_neg (mt of_decide_eq_true hkey)

namespace Token

@[simp] theorem filterMap_entry_pair (key : String) (value : Json) (tokens : List Token) :
    (pair key value :: tokens).filterMap entry = (key, value) :: tokens.filterMap entry := rfl

@[simp] theorem filterMap_entry_flag (name : String) (tokens : List Token) :
    (flag name :: tokens).filterMap entry = tokens.filterMap entry := rfl

@[simp] theorem filterMap_flagName_pair (key : String) (value : Json) (tokens : List Token) :
    (pair key value :: tokens).filterMap flagName = tokens.filterMap flagName := rfl

@[simp] theorem filterMap_flagName_flag (name : String) (tokens : List Token) :
    (flag name :: tokens).filterMap flagName = name :: tokens.filterMap flagName := rfl

/-- What a token is read as. -/
def read : Token → Json × Option Json
  | pair key value => (.string key, some value)
  | flag name => (.string name, none)

end Token

open Token

/-- A flag takes no value from the tokens behind it. -/
theorem entriesOf_items {tokens : List Token}
    (hkeys : ∀ e ∈ tokens.filterMap Token.entry, e.1 ∉ standaloneFlags)
    (hflags : ∀ f ∈ tokens.filterMap Token.flagName, f ∈ standaloneFlags) :
    entriesOf (tokens.flatMap Token.items) = tokens.map Token.read := by
  induction tokens with
  | nil => rfl
  | cons t tokens ih =>
      cases t with
      | pair key value =>
          rw [filterMap_entry_pair, List.forall_mem_cons] at hkeys
          rw [filterMap_flagName_pair] at hflags
          rw [List.flatMap_cons, List.map_cons, ← ih hkeys.2 hflags]
          exact entriesOf_pair hkeys.1 value _
      | flag name =>
          rw [filterMap_entry_flag] at hkeys
          rw [filterMap_flagName_flag, List.forall_mem_cons] at hflags
          rw [List.flatMap_cons, List.map_cons, ← ih hkeys hflags.2]
          exact entriesOf_flag hflags.1 _

theorem findSome?_read (tokens : List Token) (name : String) :
    (tokens.map Token.read).findSome? (fun e ↦ if e.1.asStr = some name then e.2 else none) =
      getEntry name (tokens.filterMap Token.entry) := by
  induction tokens with
  | nil => rfl
  | cons t tokens ih =>
      rw [List.map_cons, List.findSome?_cons]
      cases t with
      | pair key value =>
          rw [filterMap_entry_pair, getEntry]
          by_cases hkey : key = name
          · rw [if_pos hkey, if_pos
              (show (pair key value).read.1.asStr = _ from congrArg some hkey)]
            rfl
          · rw [if_neg hkey, ← ih, if_neg (show ¬ (pair key value).read.1.asStr = _ from
              fun h ↦ hkey (Option.some.inj h))]
      | flag f =>
          rw [filterMap_entry_flag, ← ih, Token.read]
          split_ifs <;> rfl

theorem any_read (tokens : List Token) (name : String) :
    (tokens.map Token.read).any (fun e ↦ e.1.asStr = some name && e.2.isNone) = true ↔
      name ∈ tokens.filterMap Token.flagName := by
  induction tokens with
  | nil => exact iff_of_false Bool.false_ne_true List.not_mem_nil
  | cons t tokens ih =>
      rw [List.map_cons, List.any_cons, Bool.or_eq_true, ih]
      cases t with
      | pair key value =>
          rw [filterMap_flagName_pair, Token.read, Option.isNone_some, Bool.and_false]
          exact or_iff_right Bool.false_ne_true
      | flag f =>
          rw [filterMap_flagName_flag, Token.read, Option.isNone_none, Bool.and_true,
            List.mem_cons, decide_eq_true_iff]
          exact or_congr_left ⟨fun h ↦ (Option.some.inj h).symm, fun h ↦ congrArg some h.symm⟩

/-- The entries of a map in another order. -/
theorem getEntry_perm {es fs : List (String × Json)} (h : es.Perm fs)
    (hfs : (fs.map Prod.fst).Nodup) (key : String) : getEntry key es = getEntry key fs := by
  have hes : (es.map Prod.fst).Nodup := (h.map Prod.fst).nodup_iff.mpr hfs
  refine Option.ext fun v ↦ ⟨fun hv ↦ ?_, fun hv ↦ ?_⟩
  · exact getEntry_of_mem hfs (h.mem_iff.mp (mem_of_getEntry hv))
  · exact getEntry_of_mem hes (h.mem_iff.mpr (mem_of_getEntry hv))

/-- A value is read as an attribute: its fields, but for the list of flags, and its flags. -/
structure Encodes (a : Attribute) (v : Json) : Prop where
  field : ∀ name ≠ "flags", ftInfoField v name = getEntry name a.entries
  flag : ∀ name, ftInfoHasFlag v name = true ↔ name ∈ a.flagNames

theorem Attribute.encodes_resp2 (a : Attribute) : Encodes a a.resp2 := by
  have hkeys : ∀ e ∈ a.entries, e.1 ≠ "flags" ∧ e.1 ∉ standaloneFlags := fun e he ↦ by
    simpa only [List.mem_cons, not_or] using a.keys e he
  have hentries : ftInfoEntries a.resp2 = a.tokens.map Token.read :=
    entriesOf_items (fun e he ↦ (hkeys e he).2) a.flags
  have hfield : ∀ name, ftInfoField a.resp2 name = getEntry name a.entries := fun name ↦ by
    rw [Attribute.entries, ← findSome?_read, ← hentries]
    rfl
  have hnone : getEntry "flags" a.entries = none := by
    rw [getEntry_eq_none_iff, List.mem_map]
    rintro ⟨e, he, hflags⟩
    exact (hkeys e he).1 hflags
  refine ⟨fun name _ ↦ hfield name, fun name ↦ ?_⟩
  rw [ftInfoHasFlag, hentries, Bool.or_eq_true, any_read, hfield, hnone]
  exact or_iff_left Bool.false_ne_true

theorem Attribute.encodes_resp3 (a : Attribute) {v : Json} (hv : a.Resp3 v) : Encodes a v := by
  obtain ⟨es, rfl, hperm⟩ := hv
  have hnodup : ((("flags", Json.array (a.flagNames.map .string)) :: a.entries).map
      Prod.fst).Nodup := by
    rw [List.map_cons, List.nodup_cons]
    refine ⟨fun h ↦ ?_, a.nodup⟩
    obtain ⟨e, he, hflags⟩ := List.mem_map.mp h
    exact a.keys e he (hflags ▸ List.mem_cons_self)
  have hfield : ∀ name, ftInfoField (.object es) name =
      getEntry name (("flags", Json.array (a.flagNames.map .string)) :: a.entries) :=
    getEntry_perm hperm hnodup
  refine ⟨fun name hname ↦ ?_, fun name ↦ ?_⟩
  · rw [hfield, getEntry, if_neg (Ne.symm hname)]
  · rw [ftInfoHasFlag, hfield, getEntry, if_pos rfl]
    rw [show ftInfoEntries (.object es) = [] from rfl, List.any_nil, Bool.false_or]
    show (a.flagNames.map Json.string).any (fun f ↦ decide (f.asStr = some name)) = true ↔ _
    rw [List.any_map, List.any_eq_true]
    refine ⟨?_, fun h ↦ ⟨name, h, decide_eq_true rfl⟩⟩
    rintro ⟨f, hf, h⟩
    exact Option.some.inj (of_decide_eq_true h) ▸ hf

theorem Encodes.text {a : Attribute} {v : Json} (h : Encodes a v) {key : String}
    (hkey : key ≠ "flags") : textField v key = a.text key :=
  congrArg (Option.bind · asStr) (h.field key hkey)

/-! ## The encodings of an index -/

theorem IndexInfo.attributes_resp2 (info : IndexInfo) :
    ftInfoField info.resp2 "attributes" = some (.array (info.attributes.map Attribute.resp2)) := by
  have hnotin : "attributes" ∉ info.before.map Prod.fst := fun h ↦
    (List.disjoint_of_nodup_append info.nodup) h List.mem_cons_self
  suffices h : ∀ (before : List (String × Json × Json)) (items : List Json),
      "attributes" ∉ before.map Prod.fst → (∀ e ∈ before, e.1 ∉ standaloneFlags) →
      (entriesOf ((before.flatMap fun e ↦ [.string e.1, e.2.1]) ++ .string "attributes" ::
        .array (info.attributes.map Attribute.resp2) :: items)).findSome?
          (fun e ↦ if e.1.asStr = some "attributes" then e.2 else none) =
        some (.array (info.attributes.map Attribute.resp2)) from h _ _ hnotin info.keys
  intro before items hbefore hkeys
  induction before with
  | nil => rfl
  | cons e before ih =>
      rw [List.map_cons, List.mem_cons, not_or] at hbefore
      rw [List.forall_mem_cons] at hkeys
      rw [List.flatMap_cons, List.append_assoc, List.cons_append, List.cons_append,
        entriesOf_pair hkeys.1, List.findSome?_cons, if_neg]
      · exact ih hbefore.2 hkeys.2
      · exact fun h ↦ hbefore.1 (Option.some.inj h).symm

theorem IndexInfo.attributes_resp3 {info : IndexInfo} {v : Json} (hv : info.Resp3 v) :
    ∃ vs, ftInfoField v "attributes" = some (.array vs) ∧
      List.Forall₂ Encodes info.attributes vs := by
  obtain ⟨es, vs, rfl, hvs, hperm⟩ := hv
  refine ⟨vs, ?_, hvs.imp fun _ _ h ↦ Attribute.encodes_resp3 _ h⟩
  have hnodup : ((info.before.map (fun e ↦ (e.1, e.2.2)) ++ ("attributes", Json.array vs) ::
      info.after.map fun e ↦ (e.1, e.2.2)).map Prod.fst).Nodup := by
    rw [List.map_append, List.map_cons, List.map_map, List.map_map]
    exact info.nodup
  show getEntry "attributes" es = _
  rw [getEntry_perm hperm hnodup]
  exact getEntry_of_mem hnodup (List.mem_append_right _ List.mem_cons_self)

/-! ## The checks of the encodings -/

/-- Two values are read as one attribute. -/
def Alike (v w : Json) : Prop := ∃ a, Encodes a v ∧ Encodes a w

theorem Alike.text {v w : Json} (h : Alike v w) {key : String} (hkey : key ≠ "flags") :
    textField v key = textField w key := by
  obtain ⟨a, hv, hw⟩ := h
  rw [hv.text hkey, hw.text hkey]

theorem Alike.flag {v w : Json} (h : Alike v w) (name : String) :
    ftInfoHasFlag v name = ftInfoHasFlag w name := by
  obtain ⟨a, hv, hw⟩ := h
  rw [Bool.eq_iff_iff, hv.flag, hw.flag]

theorem checkType_congr {v w : Json} (h : Alike v w) (full hasVector : Bool) :
    checkType full hasVector v = checkType full hasVector w := by
  rw [checkType, checkType, h.text (by decide)]

theorem foldlM_checkType_congr {vs ws : List Json} (h : List.Forall₂ Alike vs ws)
    (full hasVector : Bool) :
    vs.foldlM (checkType full) hasVector = ws.foldlM (checkType full) hasVector := by
  induction h generalizing hasVector with
  | nil => rfl
  | cons h hs ih =>
      rw [List.foldlM_cons, List.foldlM_cons, checkType_congr h]
      exact congrArg _ (funext ih)

/-- The attribute of a field stands at one place of both. -/
theorem findAttribute_alike {vs ws : List Json} (h : List.Forall₂ Alike vs ws) (name : String) :
    Option.Rel Alike (findAttribute vs name) (findAttribute ws name) := by
  induction h with
  | nil => exact .none
  | @cons v w vs ws h hs ih =>
      rw [findAttribute, findAttribute, List.find?_cons, List.find?_cons, h.text (by decide)]
      cases decide (textField w "attribute" = some name) with
      | true => exact .some h
      | false => exact ih

theorem checkField_congr {vs ws : List Json} (h : List.Forall₂ Alike vs ws) :
    checkField vs = checkField ws := by
  funext field
  have hfind := findAttribute_alike h field.1
  rw [checkField, checkField]
  revert hfind
  generalize findAttribute vs field.1 = v
  generalize findAttribute ws field.1 = w
  rintro (hvw | _)
  · simp only [hvw.text (show "type" ≠ "flags" by decide),
      hvw.text (show "SEPARATOR" ≠ "flags" by decide), hvw.flag]
  · rfl

theorem checkVectorField_congr {vs ws : List Json} (h : List.Forall₂ Alike vs ws) :
    checkVectorField vs = checkVectorField ws := by
  funext field
  have hfind := findAttribute_alike h field.1
  rw [checkVectorField, checkVectorField]
  revert hfind
  generalize findAttribute vs field.1 = v
  generalize findAttribute ws field.1 = w
  rintro (hvw | _)
  · simp only [Option.any_some, hvw.flag]
  · rfl

variable {info : IndexInfo} {v : Json}

theorem IndexInfo.alike_attributes (hv : info.Resp3 v) :
    ∃ vs, ftInfoField v "attributes" = some (.array vs) ∧
      List.Forall₂ Alike (info.attributes.map Attribute.resp2) vs := by
  obtain ⟨vs, hfield, hvs⟩ := info.attributes_resp3 hv
  refine ⟨vs, hfield, List.forall₂_map_left_iff.mpr (hvs.imp fun a w hw ↦ ?_)⟩
  exact ⟨a, a.encodes_resp2, hw⟩

theorem validateRedisLayout_resp (hv : info.Resp3 v) (schema : Option Json) (full : Bool) :
    validateRedisLayout info.resp2 schema full = validateRedisLayout v schema full := by
  obtain ⟨vs, hfield, hvs⟩ := info.alike_attributes hv
  rw [validateRedisLayout, validateRedisLayout, info.attributes_resp2, hfield]
  show (_ >>= _) = (_ >>= _)
  rw [foldlM_checkType_congr hvs, checkField_congr hvs]

theorem validateRedisVectorLayout_resp (hv : info.Resp3 v) (schema : Option Json) :
    validateRedisVectorLayout info.resp2 schema = validateRedisVectorLayout v schema := by
  obtain ⟨vs, hfield, hvs⟩ := info.alike_attributes hv
  rw [validateRedisVectorLayout, validateRedisVectorLayout, info.attributes_resp2, hfield]
  show List.forM _ _ = List.forM _ _
  rw [checkVectorField_congr hvs]

/-! ## The full layout -/

theorem foldlM_checkType_true {vs : List Json} {hasVector : Bool}
    (h : vs.foldlM (checkType true) hasVector = .ok true) :
    hasVector = true ∨ ∃ v ∈ vs, ∃ kind, textField v "type" = some kind ∧
      eqIgnoreAsciiCase kind "VECTOR" = true := by
  induction vs generalizing hasVector with
  | nil => exact .inl (Except.ok.inj h)
  | cons v vs ih =>
      rw [List.foldlM_cons, bind_eq_ok] at h
      obtain ⟨b, hb, h⟩ := h
      rw [checkType] at hb
      split at hb
      · cases hb
      · next kind hkind =>
          split_ifs at hb with hvector
          · exact .inr ⟨v, List.mem_cons_self, kind, hkind, hvector⟩
          · obtain rfl | ⟨w, hw, hkinds⟩ := ih h
            · exact .inl (Except.ok.inj hb)
            · exact .inr ⟨w, List.mem_cons_of_mem _ hw, hkinds⟩

/-- A field that passes its check is indexed as its kind. -/
theorem checkField_eq_ok {attributes : List Json} {field : String × Json}
    (h : checkField attributes field = .ok ())
    (hkind : isTag field.2 = true ∨ isNumeric field.2 = true) :
    ∃ attr, findAttribute attributes field.1 = some attr ∧
      ftInfoHasFlag attr "NOINDEX" = false ∧
      (isTag field.2 = false → textField attr "type" = some "NUMERIC") ∧
      (isTag field.2 = true → textField attr "type" = some "TAG" ∧
        textField attr "SEPARATOR" = some ";" ∧ ftInfoHasFlag attr "CASESENSITIVE" = true) := by
  have hkept : ¬ (!isTag field.2 && !isNumeric field.2) = true := by
    rw [Bool.and_eq_true, Bool.not_eq_true', Bool.not_eq_true']
    rintro ⟨htag, hnumeric⟩
    rw [htag, hnumeric] at hkind
    simp at hkind
  rw [checkField, if_neg hkept] at h
  split at h
  · cases h
  · next attr hattr =>
      split_ifs at h with hnoindex htag hnumeric hsep hcase
      · exact ⟨attr, hattr, Bool.eq_false_iff.mpr hnoindex, fun _ ↦ not_not.mp hnumeric,
          fun htrue ↦ by simp [htrue] at htag⟩
      · rw [not_or, not_not, Bool.not_eq_true', Bool.not_eq_false] at hcase
        exact ⟨attr, hattr, Bool.eq_false_iff.mpr hnoindex, fun hfalse ↦ by simp [hfalse] at htag,
          fun _ ↦ ⟨hcase.1, not_not.mp hsep, hcase.2⟩⟩

theorem findAttribute_resp2 (name : String) :
    findAttribute (info.attributes.map Attribute.resp2) name =
      (info.find name).map Attribute.resp2 := by
  rw [findAttribute, List.find?_map, IndexInfo.find]
  congr 2
  funext a
  exact congrArg (decide <| · = some name) (a.encodes_resp2.text (by decide))

theorem isTag_of_isNumeric {kind : Json} (h : isNumeric kind = true) : isTag kind = false := by
  obtain ⟨s, hs, h⟩ := (Option.any_eq_true _ _).mp h
  rw [isTag, hs, Option.any_some]
  rw [decide_eq_true_iff, List.mem_cons, List.mem_singleton] at h
  obtain rfl | rfl := h <;> decide

/-- Ok of the check of the full layout, on what the index is. -/
theorem isFull_of_validate {schema : Option Json}
    (h : validateRedisFullSchema info.resp2 schema = .ok ()) : info.IsFull schema := by
  rw [validateRedisFullSchema, validateRedisLayout, info.attributes_resp2] at h
  obtain ⟨hasVector, htypes, h⟩ := bind_eq_ok.mp h
  split_ifs at h with hvector
  have hfields := forM_eq_ok.mp h
  have hfind : ∀ {name attr}, findAttribute (info.attributes.map Attribute.resp2) name =
      some attr → ∃ a, info.find name = some a ∧ Encodes a attr := fun hattr ↦ by
    rw [findAttribute_resp2] at hattr
    obtain ⟨a, ha, rfl⟩ := Option.map_eq_some_iff.mp hattr
    exact ⟨a, ha, a.encodes_resp2⟩
  refine ⟨?_, fun field hfield htag ↦ ?_, fun field hfield hnumeric ↦ ?_⟩
  · obtain rfl : hasVector = true := by simpa using hvector
    obtain h | ⟨v, hv, kind, hkind, hkindVector⟩ := foldlM_checkType_true htypes
    · cases h
    · obtain ⟨a, ha, rfl⟩ := List.mem_map.mp hv
      rw [a.encodes_resp2.text (by decide)] at hkind
      exact ⟨a, ha, kind, hkind, hkindVector⟩
  · obtain ⟨attr, hattr, hnoindex, -, htext⟩ := checkField_eq_ok (hfields field hfield) (.inl htag)
    obtain ⟨a, ha, henc⟩ := hfind hattr
    obtain ⟨htype, hsep, hcase⟩ := htext htag
    rw [henc.text (by decide)] at htype hsep
    exact ⟨a, ha, htype, hsep, (henc.flag _).mp hcase,
      fun hmem ↦ Bool.false_ne_true (hnoindex ▸ (henc.flag _).mpr hmem)⟩
  · obtain ⟨attr, hattr, hnoindex, htype, -⟩ :=
      checkField_eq_ok (hfields field hfield) (.inr hnumeric)
    obtain ⟨a, ha, henc⟩ := hfind hattr
    have htype := htype (isTag_of_isNumeric hnumeric)
    rw [henc.text (by decide)] at htype
    exact ⟨a, ha, htype,
      fun hmem ↦ Bool.false_ne_true (hnoindex ▸ (henc.flag _).mpr hmem)⟩

/-- The checks agree on the encodings of an index, and the check of the full layout passes only
indexes of that layout. -/
theorem validate_redis_layouts (info : IndexInfo) (v : Json) (hv : info.Resp3 v)
    (schema : Option Json) :
    validateRedisSchema info.resp2 schema = validateRedisSchema v schema ∧
      validateRedisFullSchema info.resp2 schema = validateRedisFullSchema v schema ∧
      validateRedisVectorLayout info.resp2 schema = validateRedisVectorLayout v schema ∧
      (validateRedisFullSchema v schema = .ok () → info.IsFull schema) := by
  have hfull := validateRedisLayout_resp hv schema true
  refine ⟨validateRedisLayout_resp hv schema false, hfull,
    validateRedisVectorLayout_resp hv schema, fun h ↦ isFull_of_validate ?_⟩
  exact hfull.trans h

/-- A tag and a number, both named after a flag. -/
def flagNamedInfo : IndexInfo where
  attributes := [
    ⟨[.pair "attribute" (.string "SORTABLE"), .flag "UNF", .pair "type" (.string "TAG"),
      .pair "SEPARATOR" (.string ";"), .flag "CASESENSITIVE"], by decide, by decide, by decide⟩,
    ⟨[.flag "SORTABLE", .pair "attribute" (.string "NOINDEX"), .pair "type" (.string "NUMERIC")],
      by decide, by decide, by decide⟩,
    ⟨[.pair "attribute" (.string "v"), .pair "type" (.string "vector")], by decide, by decide,
      by decide⟩]
  before := [("index_name", .string "NOINDEX", .string "NOINDEX")]
  after := []
  nodup := by decide
  keys := by decide

/-- The RESP3 encoding, its entries as sorted. -/
def flagNamedMap : Json :=
  .object [("attributes", .array [
    .object [("SEPARATOR", .string ";"), ("attribute", .string "SORTABLE"),
      ("flags", .array [.string "UNF", .string "CASESENSITIVE"]), ("type", .string "TAG")],
    .object [("attribute", .string "NOINDEX"), ("flags", .array [.string "SORTABLE"]),
      ("type", .string "NUMERIC")],
    .object [("attribute", .string "v"), ("flags", .array []), ("type", .string "vector")]]),
    ("index_name", .string "NOINDEX")]

theorem validate_redis_layouts_flagNamed :
    validateRedisFullSchema flagNamedInfo.resp2 (some (.object [("NOINDEX", .string "int"),
        ("SORTABLE", .string "keyword")])) = .ok () ∧
      flagNamedInfo.IsFull (some (.object [("NOINDEX", .string "int"),
        ("SORTABLE", .string "keyword")])) := by
  have hv : flagNamedInfo.Resp3 flagNamedMap := by
    refine ⟨_, _, rfl, .cons ⟨_, rfl, ?_⟩ (.cons ⟨_, rfl, ?_⟩ (.cons ⟨_, rfl, ?_⟩ .nil)),
      .swap _ _ _⟩
    · exact .trans (@List.perm_append_comm _ [_] [_, _, _]) (.swap _ _ _)
    · exact .swap _ _ _
    · exact .swap _ _ _
  obtain ⟨-, hfull, -, hok⟩ := validate_redis_layouts flagNamedInfo flagNamedMap hv
    (some (.object [("NOINDEX", .string "int"), ("SORTABLE", .string "keyword")]))
  have h : validateRedisFullSchema flagNamedMap (some (.object [("NOINDEX", .string "int"),
      ("SORTABLE", .string "keyword")])) = .ok () := by decide
  exact ⟨hfull.trans h, hok h⟩

end VectorDbBenchmark.FilterOnly
