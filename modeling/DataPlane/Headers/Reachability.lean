/-
The positions of a tool's input schema: the statically reachable property schemas, where an `x-mcp-header`
annotation may stand, and the values that hold no schema, where it may not. The walk of `visit_schema` is shown to
be one loop over the visits of a document in document order, its two recursions taken apart, and the visits are
exactly the two kinds of positions.
-/
import DataPlane.Headers.Schema

namespace DataPlane.Headers

open DataPlane.Json

/-! ## Positions in a document -/

/-- An object that occurs in a value, at any depth. -/
inductive Nested : Value → JsonObject → Prop
  | here (o : JsonObject) : Nested (.object o) o
  | entry {entries : JsonObject} {key : String} {v : Value} {o : JsonObject} :
      (key, v) ∈ entries → Nested v o → Nested (.object entries) o
  | item {items : List Value} {v : Value} {o : JsonObject} : v ∈ items → Nested v o → Nested (.array items) o

/-- A schema statically reachable from the root, and its property path. A map has one entry for each key, so
`S.properties` is the value of any entry with that key. -/
inductive Reachable (root : JsonObject) : List String → JsonObject → Prop
  | root : Reachable root [] root
  | property {path : List String} {schema properties nested : JsonObject} {key : String} :
      Reachable root path schema → ("properties", .object properties) ∈ schema → (key, .object nested) ∈ properties →
      Reachable root (path ++ [key]) nested

theorem Reachable.eq_root {root schema : JsonObject} {path : List String} (h : Reachable root path schema)
    (hpath : path = []) : schema = root := by
  cases h with
  | root => rfl
  | property => simp at hpath

/-- A value in which the walk looks for no schema: it stands under a keyword other than `properties` and
`x-mcp-header` of a reachable schema, is a `properties` value that is no object, or a property schema that is none. -/
inductive Beyond (root : JsonObject) : Value → Prop
  | keyword {path : List String} {schema : JsonObject} {key : String} {v : Value} :
      Reachable root path schema → (key, v) ∈ schema → key ≠ "properties" → key ≠ "x-mcp-header" → Beyond root v
  | properties {path : List String} {schema : JsonObject} {v : Value} :
      Reachable root path schema → ("properties", v) ∈ schema → (∀ o, v ≠ .object o) → Beyond root v
  | property {path : List String} {schema properties : JsonObject} {key : String} {v : Value} :
      Reachable root path schema → ("properties", .object properties) ∈ schema → (key, v) ∈ properties →
      (∀ o, v ≠ .object o) → Beyond root v

/-- No object in the value carries the annotation's key. -/
def Clean (v : Value) : Prop := ∀ o, Nested v o → o.get? "x-mcp-header" = none

/-! ## The walk as a loop over visits -/

/-- What the walk does next: look at the annotation of a reachable schema, or reject annotations in a value. The
schema path is for the texts of errors. -/
inductive Visit where
  | schema (schemaPath : String) (path : List String) (schema : JsonObject)
  | elsewhere (schemaPath : String) (value : Value)

mutual

/-- The visits below a reachable schema, in document order. -/
def visitsOfKeywords (schemaPath : String) (path : List String) : List (String × Value) → List Visit
  | [] => []
  | (keyword, value) :: rest =>
    visitsOfKeyword schemaPath path keyword value ++ visitsOfKeywords schemaPath path rest

def visitsOfKeyword (schemaPath : String) (path : List String) (keyword : String) : Value → List Visit
  | .object properties =>
    if keyword = "properties" then visitsOfProperties schemaPath path properties
    else if keyword = "x-mcp-header" then []
    else [.elsewhere s!"{schemaPath}.{keyword}" (.object properties)]
  | value =>
    if keyword = "x-mcp-header" then [] else [.elsewhere s!"{schemaPath}.{keyword}" value]

def visitsOfProperties (schemaPath : String) (path : List String) : List (String × Value) → List Visit
  | [] => []
  | (property, value) :: rest =>
    visitsOfProperty s!"{schemaPath}.properties.{property}" (path ++ [property]) value ++
      visitsOfProperties schemaPath path rest

def visitsOfProperty (schemaPath : String) (path : List String) : Value → List Visit
  | .object schema => .schema schemaPath path schema :: visitsOfKeywords schemaPath path schema
  | value => [.elsewhere schemaPath value]

end

section
variable (codecs : Codecs)

/-- One visit. -/
def visit (walk : Walk) : Visit → Except String Walk
  | .schema schemaPath path schema => visitAnnotation codecs schema schemaPath (some path) walk
  | .elsewhere schemaPath value => do
    rejectUnreachableAnnotations schemaPath value
    return walk

mutual

theorem visitKeywords_eq (schemaPath : String) (propertyPath : Option (List String)) :
    ∀ (entries : List (String × Value)) (walk : Walk),
      visitKeywords codecs schemaPath propertyPath entries walk =
        (visitsOfKeywords schemaPath (propertyPath.getD []) entries).foldlM (visit codecs) walk
  | [], walk => rfl
  | (keyword, value) :: rest, walk => by
    rw [visitKeywords, visitsOfKeywords, List.foldlM_append, visitKeyword_eq]
    congr 1
    funext walk
    exact visitKeywords_eq schemaPath propertyPath rest walk

theorem visitKeyword_eq (schemaPath : String) (propertyPath : Option (List String)) (keyword : String) :
    ∀ (value : Value) (walk : Walk),
      visitKeyword codecs schemaPath propertyPath keyword value walk =
        (visitsOfKeyword schemaPath (propertyPath.getD []) keyword value).foldlM (visit codecs) walk
  | .object properties, walk => by
    rw [visitKeyword, visitsOfKeyword]
    split
    · exact visitProperties_eq schemaPath (propertyPath.getD []) properties walk
    · split
      · rfl
      · simp [visit]
  | .null, walk | .bool _, walk | .number _, walk | .string _, walk | .array _, walk => by
    rw [visitKeyword, visitsOfKeyword]
    · split
      · rfl
      · simp [visit]
    all_goals simp

theorem visitProperties_eq (schemaPath : String) (path : List String) :
    ∀ (entries : List (String × Value)) (walk : Walk),
      visitProperties codecs schemaPath path entries walk =
        (visitsOfProperties schemaPath path entries).foldlM (visit codecs) walk
  | [], walk => rfl
  | (property, value) :: rest, walk => by
    rw [visitProperties, visitsOfProperties, List.foldlM_append, visitProperty_eq]
    congr 1
    funext walk
    exact visitProperties_eq schemaPath path rest walk

theorem visitProperty_eq (schemaPath : String) (path : List String) :
    ∀ (value : Value) (walk : Walk),
      visitProperty codecs schemaPath path value walk =
        (visitsOfProperty schemaPath path value).foldlM (visit codecs) walk
  | .object schema, walk => by
    rw [visitProperty, visitsOfProperty, List.foldlM_cons]
    congr 1
    funext walk
    exact visitKeywords_eq schemaPath (some path) schema walk
  | .null, walk | .bool _, walk | .number _, walk | .string _, walk | .array _, walk => by
    rw [visitProperty, visitsOfProperty]
    · simp [visit]
    all_goals simp

end

end

/-! ## Rejected values -/

theorem clean_object {o : JsonObject} :
    Clean (.object o) ↔ o.get? "x-mcp-header" = none ∧ ∀ key v, (key, v) ∈ o → Clean v := by
  constructor
  · intro h
    exact ⟨h o (.here o), fun key v hm o' ho => h o' (.entry hm ho)⟩
  · rintro ⟨hkey, hentries⟩ o' (_ | ⟨hm, ho⟩ | _)
    · exact hkey
    · exact hentries _ _ hm o' ho

theorem clean_array {items : List Value} : Clean (.array items) ↔ ∀ v ∈ items, Clean v := by
  constructor
  · intro h v hm o ho
    exact h o (.item hm ho)
  · rintro h o (_ | _ | ⟨hm, ho⟩)
    exact h _ hm o ho

mutual

/-- A value is let through exactly when no object in it carries the key. -/
theorem rejectUnreachableAnnotations_eq_ok (schemaPath : String) :
    ∀ value, rejectUnreachableAnnotations schemaPath value = .ok () ↔ Clean value
  | .object o => by
    rw [rejectUnreachableAnnotations, clean_object, JsonObject.get?]
    rcases o.lookup "x-mcp-header" with _ | v
    · simpa using rejectEntries_eq_ok schemaPath o
    · simp
  | .array items => by
    rw [rejectUnreachableAnnotations, clean_array]
    exact rejectItems_eq_ok schemaPath 0 items
  | .null | .bool _ | .number _ | .string _ => by
    rw [rejectUnreachableAnnotations]
    · refine iff_of_true rfl ?_
      rintro o (_ | _ | _)
    all_goals simp

theorem rejectEntries_eq_ok (schemaPath : String) :
    ∀ entries, rejectEntries schemaPath entries = .ok () ↔ ∀ key v, (key, v) ∈ entries → Clean v
  | [] => by simp [rejectEntries]
  | (key, nested) :: rest => by
    rw [rejectEntries, except_bind_eq_ok]
    simp only [rejectUnreachableAnnotations_eq_ok, rejectEntries_eq_ok, List.mem_cons, Prod.mk.injEq]
    constructor
    · rintro ⟨-, hhead, hrest⟩ k v (⟨-, rfl⟩ | hm)
      · exact hhead
      · exact hrest k v hm
    · intro h
      exact ⟨(), h key nested (.inl ⟨rfl, rfl⟩), fun k v hm => h k v (.inr hm)⟩

theorem rejectItems_eq_ok (schemaPath : String) :
    ∀ (index : Nat) (items : List Value), rejectItems schemaPath index items = .ok () ↔ ∀ v ∈ items, Clean v
  | _, [] => by simp [rejectItems]
  | index, nested :: rest => by
    rw [rejectItems, except_bind_eq_ok]
    simp only [rejectUnreachableAnnotations_eq_ok, rejectItems_eq_ok, List.forall_mem_cons, exists_const]

end

/-! ## Which positions are visited -/

/-- Induction over the schemas of a document: from the property schemas of a schema to the schema. -/
theorem schema_induction {motive : JsonObject → Prop}
    (step : ∀ schema : JsonObject, (∀ properties key nested, ("properties", Value.object properties) ∈ schema →
      (key, Value.object nested) ∈ properties → motive nested) → motive schema) (schema : JsonObject) : motive schema :=
  step schema fun _ _ nested _hproperties _hkey => schema_induction step nested
termination_by sizeOf schema
decreasing_by
  have h1 := List.sizeOf_lt_of_mem _hproperties
  have h2 := List.sizeOf_lt_of_mem _hkey
  simp only [Prod.mk.sizeOf_spec, Value.object.sizeOf_spec] at h1 h2
  omega

theorem visitsOfKeywords_flatMap (schemaPath : String) (path : List String) (entries : List (String × Value)) :
    visitsOfKeywords schemaPath path entries = entries.flatMap fun e => visitsOfKeyword schemaPath path e.1 e.2 := by
  induction entries with
  | nil => rfl
  | cons entry rest ih => rw [visitsOfKeywords, ih, List.flatMap_cons]

theorem visitsOfProperties_flatMap (schemaPath : String) (path : List String) (entries : List (String × Value)) :
    visitsOfProperties schemaPath path entries = entries.flatMap fun e =>
      visitsOfProperty s!"{schemaPath}.properties.{e.1}" (path ++ [e.1]) e.2 := by
  induction entries with
  | nil => rfl
  | cons entry rest ih => rw [visitsOfProperties, ih, List.flatMap_cons]

theorem visitsOfKeyword_header (schemaPath : String) (path : List String) (v : Value) :
    visitsOfKeyword schemaPath path "x-mcp-header" v = [] := by
  cases v with
  | object o => rw [visitsOfKeyword, if_neg (by decide), if_pos rfl]
  | _ =>
    rw [visitsOfKeyword, if_pos rfl]
    simp

theorem visitsOfKeyword_elsewhere {schemaPath keyword : String} {path : List String} {v : Value}
    (hheader : keyword ≠ "x-mcp-header") (hv : keyword = "properties" → ∀ o, v ≠ .object o) :
    visitsOfKeyword schemaPath path keyword v = [.elsewhere s!"{schemaPath}.{keyword}" v] := by
  cases v with
  | object o => rw [visitsOfKeyword, if_neg fun h => hv h o rfl, if_neg hheader]
  | _ =>
    rw [visitsOfKeyword, if_neg hheader]
    simp

theorem visitsOfProperty_elsewhere {schemaPath : String} {path : List String} {v : Value} (hv : ∀ o, v ≠ .object o) :
    visitsOfProperty schemaPath path v = [.elsewhere schemaPath v] := by
  cases v with
  | object o => exact absurd rfl (hv o)
  | _ =>
    rw [visitsOfProperty]
    simp

/-- The visits below a schema: its other keywords, its properties, and what is below these. -/
inductive Below (schemaPath : String) (path : List String) (schema : JsonObject) : Visit → Prop
  | keyword {key : String} {v : Value} :
      (key, v) ∈ schema → key ≠ "x-mcp-header" → (key = "properties" → ∀ o, v ≠ .object o) →
      Below schemaPath path schema (.elsewhere s!"{schemaPath}.{key}" v)
  | property {properties : JsonObject} {key : String} {v : Value} :
      ("properties", .object properties) ∈ schema → (key, v) ∈ properties → (∀ o, v ≠ .object o) →
      Below schemaPath path schema (.elsewhere s!"{schemaPath}.properties.{key}" v)
  | schema {properties nested : JsonObject} {key : String} :
      ("properties", .object properties) ∈ schema → (key, .object nested) ∈ properties →
      Below schemaPath path schema (.schema s!"{schemaPath}.properties.{key}" (path ++ [key]) nested)
  | nested {properties nested : JsonObject} {key : String} {x : Visit} :
      ("properties", .object properties) ∈ schema → (key, .object nested) ∈ properties →
      x ∈ visitsOfKeywords s!"{schemaPath}.properties.{key}" (path ++ [key]) nested → Below schemaPath path schema x

theorem mem_visitsOfKeywords {schemaPath : String} {path : List String} {schema : JsonObject} {x : Visit} :
    x ∈ visitsOfKeywords schemaPath path schema ↔ Below schemaPath path schema x := by
  rw [visitsOfKeywords_flatMap, List.mem_flatMap]
  -- the visits of a property, whatever its schema
  have hproperty {properties : JsonObject} {e : String × Value} (he : e ∈ properties) :
      x ∈ visitsOfProperty s!"{schemaPath}.properties.{e.1}" (path ++ [e.1]) e.2 →
        x ∈ visitsOfKeyword schemaPath path "properties" (.object properties) := by
    intro hx
    rw [visitsOfKeyword, if_pos rfl, visitsOfProperties_flatMap]
    exact List.mem_flatMap.mpr ⟨e, he, hx⟩
  constructor
  · rintro ⟨⟨key, v⟩, hm, hx⟩
    by_cases hheader : key = "x-mcp-header"
    · subst hheader
      rw [visitsOfKeyword_header] at hx
      cases hx
    · by_cases hv : key = "properties" → ∀ o, v ≠ .object o
      · rw [visitsOfKeyword_elsewhere hheader hv] at hx
        obtain rfl := List.mem_singleton.mp hx
        exact .keyword hm hheader hv
      · push Not at hv
        obtain ⟨rfl, properties, rfl⟩ := hv
        rw [visitsOfKeyword, if_pos rfl, visitsOfProperties_flatMap] at hx
        obtain ⟨⟨property, w⟩, hk, hx⟩ := List.mem_flatMap.mp hx
        by_cases hw : ∀ o, w ≠ .object o
        · rw [visitsOfProperty_elsewhere hw] at hx
          obtain rfl := List.mem_singleton.mp hx
          exact .property hm hk hw
        · push Not at hw
          obtain ⟨nested, rfl⟩ := hw
          rw [visitsOfProperty] at hx
          rcases List.mem_cons.mp hx with rfl | hx
          · exact .schema hm hk
          · exact .nested hm hk hx
  · intro h
    cases h with
    | @keyword key v hm hheader hv =>
      refine ⟨(key, v), hm, ?_⟩
      rw [visitsOfKeyword_elsewhere hheader hv]
      exact List.mem_singleton_self _
    | property hm hk hv =>
      refine ⟨_, hm, hproperty hk ?_⟩
      rw [visitsOfProperty_elsewhere hv]
      exact List.mem_singleton_self _
    | schema hm hk =>
      refine ⟨_, hm, hproperty hk ?_⟩
      rw [visitsOfProperty]
      exact List.mem_cons_self
    | nested hm hk hx =>
      refine ⟨_, hm, hproperty hk ?_⟩
      rw [visitsOfProperty]
      exact List.mem_cons_of_mem _ hx

/-- The visits of a whole document, the root included. -/
def documentVisits (root : JsonObject) : List Visit := visitsOfProperty "$" [] (.object root)

theorem mem_documentVisits {root : JsonObject} {x : Visit} :
    x ∈ documentVisits root ↔ x = .schema "$" [] root ∨ x ∈ visitsOfKeywords "$" [] root := by
  rw [documentVisits, visitsOfProperty, List.mem_cons]

/-- The position a visit is for. -/
def Visit.Sound (root : JsonObject) : Visit → Prop
  | .schema _ path object => Reachable root path object
  | .elsewhere _ value => Beyond root value

section
variable {root : JsonObject}

/-- What is visited below a reachable schema are positions of the document. -/
theorem visitsOfKeywords_sound {schema : JsonObject} {schemaPath : String} {path : List String}
    (hschema : Reachable root path schema) {x : Visit} (hx : x ∈ visitsOfKeywords schemaPath path schema) :
    x.Sound root := by
  induction schema using schema_induction generalizing schemaPath path with
  | step schema ih =>
    cases mem_visitsOfKeywords.mp hx with
    | @keyword key v hm hheader hv =>
      by_cases hp : key = "properties"
      · subst hp
        exact Beyond.properties hschema hm (hv rfl)
      · exact Beyond.keyword hschema hm hp hheader
    | property hm hk hv => exact Beyond.property hschema hm hk hv
    | schema hm hk => exact Reachable.property hschema hm hk
    | nested hm hk hx => exact ih _ _ _ hm hk (.property hschema hm hk) hx

/-- A path found below a schema goes on from the schema's own. -/
theorem path_of_visitsOfKeywords {schema nested : JsonObject} {schemaPath nestedPath : String}
    {path below : List String} (h : .schema nestedPath below nested ∈ visitsOfKeywords schemaPath path schema) :
    ∃ key, path ++ [key] <+: below := by
  induction schema using schema_induction generalizing schemaPath path with
  | step schema ih =>
    cases mem_visitsOfKeywords.mp h with
    | @schema _ _ key hm hk => exact ⟨key, List.prefix_rfl⟩
    | @nested _ _ key _ hm hk h =>
      obtain ⟨_, hp⟩ := ih _ _ _ hm hk h
      exact ⟨key, (List.prefix_append _ _).trans hp⟩

theorem documentVisits_sound {x : Visit} (hx : x ∈ documentVisits root) : x.Sound root := by
  rcases mem_documentVisits.mp hx with rfl | hx
  · exact Reachable.root
  · exact visitsOfKeywords_sound .root hx

/-- Every reachable schema is visited, and all that stands below it. -/
theorem Reachable.visited {path : List String} {schema : JsonObject} (h : Reachable root path schema) :
    ∃ schemaPath, .schema schemaPath path schema ∈ documentVisits root ∧
      ∀ x ∈ visitsOfKeywords schemaPath path schema, x ∈ documentVisits root := by
  induction h with
  | root => exact ⟨"$", mem_documentVisits.mpr (.inl rfl), fun x hx => mem_documentVisits.mpr (.inr hx)⟩
  | property _ hproperties hkey ih =>
    obtain ⟨schemaPath, -, hbelow⟩ := ih
    exact ⟨_, hbelow _ (mem_visitsOfKeywords.mpr (.schema hproperties hkey)), fun x hx =>
      hbelow x (mem_visitsOfKeywords.mpr (.nested hproperties hkey hx))⟩

theorem Beyond.visited {v : Value} (h : Beyond root v) :
    ∃ schemaPath, .elsewhere schemaPath v ∈ documentVisits root := by
  cases h with
  | keyword hschema hm hproperties hheader =>
    obtain ⟨schemaPath, -, hbelow⟩ := hschema.visited
    exact ⟨_, hbelow _ (mem_visitsOfKeywords.mpr (.keyword hm hheader fun h => absurd h hproperties))⟩
  | properties hschema hm hobject =>
    obtain ⟨schemaPath, -, hbelow⟩ := hschema.visited
    exact ⟨_, hbelow _ (mem_visitsOfKeywords.mpr (.keyword hm (by decide) fun _ => hobject))⟩
  | property hschema hproperties hkey hobject =>
    obtain ⟨schemaPath, -, hbelow⟩ := hschema.visited
    exact ⟨_, hbelow _ (mem_visitsOfKeywords.mpr (.property hproperties hkey hobject))⟩

/-- The values beyond the schemas are those the walk visits as such. -/
theorem beyond_iff_visited {v : Value} :
    Beyond root v ↔ ∃ schemaPath, .elsewhere schemaPath v ∈ visitsOfKeywords "$" [] root := by
  constructor
  · intro h
    obtain ⟨schemaPath, hm⟩ := h.visited
    exact ⟨schemaPath, (mem_documentVisits.mp hm).resolve_left (by simp)⟩
  · rintro ⟨schemaPath, hm⟩
    exact visitsOfKeywords_sound .root hm

/-! ## The reachable schemas -/

/-- The reachable schema that a visit looks at, with its path. -/
def Visit.schema? : Visit → Option (List String × JsonObject)
  | .schema _ path object => some (path, object)
  | .elsewhere _ _ => none

/-- The reachable schemas of a document, in document order, the root first. -/
def reachableSchemas (root : JsonObject) : List (List String × JsonObject) :=
  (documentVisits root).filterMap Visit.schema?

theorem reachableSchemas_eq (root : JsonObject) :
    reachableSchemas root = ([], root) :: (visitsOfKeywords "$" [] root).filterMap Visit.schema? := by
  rw [reachableSchemas, documentVisits, visitsOfProperty]
  rfl

theorem mem_reachableSchemas {path : List String} {schema : JsonObject} :
    (path, schema) ∈ reachableSchemas root ↔ Reachable root path schema := by
  rw [reachableSchemas, List.mem_filterMap]
  constructor
  · rintro ⟨x, hx, h⟩
    have := documentVisits_sound hx
    cases x with
    | schema schemaPath path' schema' =>
      cases h
      exact this
    | elsewhere schemaPath v => cases h
  · intro h
    obtain ⟨schemaPath, hm, -⟩ := h.visited
    exact ⟨_, hm, rfl⟩

/-! ### One entry for each path -/

/-- Every map in the value has one entry for each of its keys, as a `serde_json::Map` does. -/
def UniqueKeys (v : Value) : Prop := ∀ o, Nested v o → (o.map Prod.fst).Nodup

theorem UniqueKeys.entry {o : JsonObject} {key : String} {v : Value} (h : UniqueKeys (.object o)) (hm : (key, v) ∈ o) :
    UniqueKeys v :=
  fun o' ho => h o' (.entry hm ho)

/-- The paths of the schemas in a list of visits. -/
def schemaPaths (visits : List Visit) : List (List String) := (visits.filterMap Visit.schema?).map (·.1)

theorem schemaPaths_flatMap {α : Type} (xs : List α) (f : α → List Visit) :
    schemaPaths (xs.flatMap f) = xs.flatMap fun x => schemaPaths (f x) := by
  simp [schemaPaths, List.filterMap_flatMap, List.map_flatMap]

theorem mem_schemaPaths {visits : List Visit} {path : List String} :
    path ∈ schemaPaths visits ↔ ∃ schemaPath schema, .schema schemaPath path schema ∈ visits := by
  constructor
  · intro h
    obtain ⟨⟨_, schema⟩, hs, rfl⟩ := List.mem_map.mp h
    obtain ⟨x, hx, hv⟩ := List.mem_filterMap.mp hs
    cases x with
    | schema schemaPath path' schema' =>
      cases hv
      exact ⟨schemaPath, schema, hx⟩
    | elsewhere schemaPath v => cases hv
  · rintro ⟨schemaPath, schema, h⟩
    exact List.mem_map.mpr ⟨(path, schema), List.mem_filterMap.mpr ⟨_, h, rfl⟩, rfl⟩

/-- The visits of one property are of its path and what goes on from it. -/
theorem schemaPaths_visitsOfProperty {schemaPath : String} {path below : List String} {v : Value}
    (h : below ∈ schemaPaths (visitsOfProperty schemaPath path v)) : path <+: below := by
  obtain ⟨nestedPath, schema, hx⟩ := mem_schemaPaths.mp h
  by_cases hv : ∀ o, v ≠ .object o
  · rw [visitsOfProperty_elsewhere hv] at hx
    simp at hx
  · push Not at hv
    obtain ⟨nested, rfl⟩ := hv
    rw [visitsOfProperty] at hx
    rcases List.mem_cons.mp hx with hx | hx
    · cases hx
      exact List.prefix_rfl
    · obtain ⟨key, hp⟩ := path_of_visitsOfKeywords hx
      exact (List.prefix_append path [key]).trans hp

/-- Only `properties` has schemas below it. -/
theorem schemaPaths_visitsOfKeyword {schemaPath keyword : String} {path : List String} {v : Value}
    (h : keyword ≠ "properties") : schemaPaths (visitsOfKeyword schemaPath path keyword v) = [] := by
  by_cases hheader : keyword = "x-mcp-header"
  · subst hheader
    rw [visitsOfKeyword_header]
    rfl
  · rw [visitsOfKeyword_elsewhere hheader fun hp => absurd hp h]
    rfl

theorem nodup_visitsOfProperty {schemaPath : String} {path : List String} {v : Value}
    (h : ∀ nested, v = .object nested → (schemaPaths (visitsOfKeywords schemaPath path nested)).Nodup) :
    (schemaPaths (visitsOfProperty schemaPath path v)).Nodup := by
  by_cases hv : ∀ o, v ≠ .object o
  · rw [visitsOfProperty_elsewhere hv]
    exact List.nodup_nil
  · push Not at hv
    obtain ⟨nested, rfl⟩ := hv
    rw [visitsOfProperty]
    refine List.nodup_cons.mpr ⟨fun hm => ?_, h nested rfl⟩
    -- a path below the schema is longer than the schema's own
    obtain ⟨_, _, hx⟩ := mem_schemaPaths.mp hm
    obtain ⟨key, hp⟩ := path_of_visitsOfKeywords hx
    have := hp.length_le
    simp at this

theorem nodup_visitsOfProperties {schemaPath : String} {path : List String} {properties : JsonObject}
    (hkeys : (properties.map Prod.fst).Nodup)
    (h : ∀ e ∈ properties,
      (schemaPaths (visitsOfProperty s!"{schemaPath}.properties.{e.1}" (path ++ [e.1]) e.2)).Nodup) :
    (schemaPaths (visitsOfProperties schemaPath path properties)).Nodup := by
  rw [visitsOfProperties_flatMap, schemaPaths_flatMap, List.nodup_flatMap]
  refine ⟨h, (List.pairwise_map.mp hkeys).imp fun {e e'} hne below hb hb' => hne ?_⟩
  -- paths below two properties part at the property's name
  have heq : path ++ [e.1] = path ++ [e'.1] :=
    (List.prefix_of_prefix_length_le (schemaPaths_visitsOfProperty hb) (schemaPaths_visitsOfProperty hb')
      (by simp)).eq_of_length (by simp)
  simpa using heq

/-- Where keys are unique, no path is found twice below a schema. -/
theorem nodup_visitsOfKeywords {schema : JsonObject} {schemaPath : String} {path : List String}
    (h : UniqueKeys (.object schema)) : (schemaPaths (visitsOfKeywords schemaPath path schema)).Nodup := by
  induction schema using schema_induction generalizing schemaPath path with
  | step schema ih =>
    rw [visitsOfKeywords_flatMap, schemaPaths_flatMap, List.nodup_flatMap]
    refine ⟨?_, (List.pairwise_map.mp (h _ (.here _))).imp fun {e e'} hne below hb hb' => ?_⟩
    · rintro ⟨keyword, v⟩ hm
      dsimp only
      by_cases hp : keyword = "properties"
      · subst hp
        by_cases hv : ∀ o, v ≠ .object o
        · rw [visitsOfKeyword_elsewhere (by decide) fun _ => hv]
          exact List.nodup_nil
        · push Not at hv
          obtain ⟨properties, rfl⟩ := hv
          have hproperties := h.entry hm
          rw [visitsOfKeyword, if_pos rfl]
          refine nodup_visitsOfProperties (hproperties _ (.here _)) fun e he => nodup_visitsOfProperty ?_
          intro nested hnested
          have he : (e.1, Value.object nested) ∈ properties := hnested ▸ he
          exact ih properties e.1 nested hm he (hproperties.entry he)
      · rw [schemaPaths_visitsOfKeyword hp]
        exact List.nodup_nil
    · -- of two keywords one is not `properties`
      dsimp only at hb hb'
      by_cases hp : e.1 = "properties"
      · rw [schemaPaths_visitsOfKeyword fun hp' => hne (hp.trans hp'.symm)] at hb'
        cases hb'
      · rw [schemaPaths_visitsOfKeyword hp] at hb
        cases hb

/-- In a document with unique keys no two reachable schemas have the same path. -/
theorem nodup_reachableSchemas (h : UniqueKeys (.object root)) : ((reachableSchemas root).map (·.1)).Nodup := by
  refine nodup_visitsOfProperty fun nested hnested => ?_
  cases hnested
  exact nodup_visitsOfKeywords h

end

end DataPlane.Headers
