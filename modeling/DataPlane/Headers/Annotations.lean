/-
What the schema walk returns: `param_header_annotations` succeeds exactly on the schemas whose annotations all
stand on reachable properties, are well formed and have names that differ in more than case, and then has one
entry for each annotated schema. The loop over the visits of a document is followed with what it has seen and
found so far.
-/
import DataPlane.Headers.Reachability

namespace DataPlane.Headers

open DataPlane.Json

/-! ## Legal annotations -/

/-- The name of a parameter type in a schema. -/
def ParameterType.name : ParameterType → String
  | .boolean => "boolean"
  | .integer => "integer"
  | .string => "string"

/-- What the walk relies on of `HeaderName::from_bytes`: it takes every token of at most `limit` characters and
lower-cases it, and refuses longer names. -/
structure HeaderNameLaw (codecs : Codecs) (limit : Nat) : Prop where
  accepts : ∀ s, s ≠ "" → s.toList.all isTchar → s.length ≤ limit →
    codecs.headerNameFromBytes s = some (toAsciiLowercase s)
  refuses : ∀ s, limit < s.length → codecs.headerNameFromBytes s = none

/-- A schema annotated with a header of a legal name: a non-empty token that leaves the header's full name within
the limit, on a parameter of one of the three types. -/
structure LegalAnnotation (limit : Nat) (schema : JsonObject) (header : String) (ty : ParameterType) : Prop where
  annotated : schema.get? "x-mcp-header" = some (.string header)
  nonempty : header ≠ ""
  token : header.toList.all isTchar
  short : (headerMcpParamPrefix ++ header).length ≤ limit
  type : schema.get? "type" = some (.string ty.name)

/-- The entry of an annotated schema. -/
def entryFor (path : List String) (header : String) (ty : ParameterType) : ParamHeaderAnnotation where
  headerName := toAsciiLowercase (headerMcpParamPrefix ++ header)
  headerNameDisplay := headerMcpParamPrefix ++ header
  parameterType := ty
  propertyPath := path

theorem parameterTypeOf_eq_ok {schema : JsonObject} {display : String} {ty : ParameterType} :
    parameterTypeOf schema display = .ok ty ↔ schema.get? "type" = some (.string ty.name) := by
  have hstr : ∀ s, (schema.get? "type").bind Value.asStr = some s ↔ schema.get? "type" = some (.string s) := by
    intro s
    rcases schema.get? "type" with _ | v
    · simp
    · cases v <;> simp [Value.asStr]
  rw [← hstr]
  unfold parameterTypeOf
  split
  all_goals rename_i h
  · rw [h]; cases ty <;> simp [ParameterType.name]
  · rw [h]; cases ty <;> simp [ParameterType.name]
  · rw [h]; cases ty <;> simp [ParameterType.name]
  · cases ty <;> simp_all [ParameterType.name]

/-- A check that throws in the middle of a `do` block. -/
theorem check_eq_ok {α : Type} {c : Prop} [Decidable c] {e : String} {f : Unit → Except String α} {k : Except String α}
    {a : α} : (if c then (throw e : Except String Unit) >>= f else k) = .ok a ↔ ¬ c ∧ k = .ok a := by
  split
  · rename_i hc
    simp [hc, throw, throwThe, MonadExceptOf.throw, bind, Except.bind]
  · rename_i hc
    simp [hc]

/-- All the checks of an annotation that is a string. -/
theorem visitAnnotation_string {codecs : Codecs} {schema : JsonObject} {schemaPath header : String}
    {path : List String} {walk walk' : Walk} (hkey : schema.get? "x-mcp-header" = some (.string header)) :
    visitAnnotation codecs schema schemaPath (some path) walk = .ok walk' ↔
      header ≠ "" ∧ header.toList.all isTchar ∧ toAsciiLowercase header ∉ walk.seenHeaders ∧
        ∃ ty name, schema.get? "type" = some (.string ty.name) ∧
          codecs.headerNameFromBytes (headerMcpParamPrefix ++ header) = some name ∧
          walk' = ⟨toAsciiLowercase header :: walk.seenHeaders,
            walk.annotations ++ [⟨name, headerMcpParamPrefix ++ header, ty, path⟩]⟩ := by
  unfold visitAnnotation
  rw [hkey]
  dsimp only
  rw [check_eq_ok, check_eq_ok, check_eq_ok, except_bind_eq_ok]
  refine and_congr (by simp) (and_congr (by simp) (and_congr (by simp) (exists_congr fun ty => ?_)))
  rw [parameterTypeOf_eq_ok]
  rcases codecs.headerNameFromBytes (headerMcpParamPrefix ++ header) with _ | name
  · simp [throw, throwThe, MonadExceptOf.throw]
  · simp only [pure, Except.pure, Except.ok.injEq, Option.some.injEq]
    constructor
    · rintro ⟨hty, rfl⟩
      exact ⟨name, hty, rfl, rfl⟩
    · rintro ⟨_, hty, rfl, rfl⟩
      exact ⟨hty, rfl⟩

section
variable {codecs : Codecs} {limit : Nat} (law : HeaderNameLaw codecs limit)
include law

/-- The full name of a token is taken by the HTTP crate exactly when it is within the limit. -/
theorem headerNameFromBytes_eq {header : String} (htoken : header.toList.all isTchar) :
    codecs.headerNameFromBytes (headerMcpParamPrefix ++ header) =
      if (headerMcpParamPrefix ++ header).length ≤ limit then
        some (toAsciiLowercase (headerMcpParamPrefix ++ header))
      else none := by
  split
  · rename_i hshort
    refine law.accepts _ ?_ ?_ hshort
    · intro h
      have := congrArg String.length h
      simp [headerMcpParamPrefix] at this
    · rw [String.toList_append, List.all_append, htoken, Bool.and_true]
      decide
  · rename_i hlong
    exact law.refuses _ (by omega)

/-- The annotation of a property schema: none, or a legal one of a new name. -/
theorem visitAnnotation_eq_ok {schema : JsonObject} {schemaPath : String} {path : List String} {walk walk' : Walk} :
    visitAnnotation codecs schema schemaPath (some path) walk = .ok walk' ↔
      (schema.get? "x-mcp-header" = none ∧ walk' = walk) ∨
        ∃ header ty, LegalAnnotation limit schema header ty ∧ toAsciiLowercase header ∉ walk.seenHeaders ∧
          walk' = ⟨toAsciiLowercase header :: walk.seenHeaders, walk.annotations ++ [entryFor path header ty]⟩ := by
  rcases hkey : schema.get? "x-mcp-header" with _ | raw
  · unfold visitAnnotation
    rw [hkey]
    constructor
    · intro h
      cases h
      exact .inl ⟨rfl, rfl⟩
    · rintro (⟨-, rfl⟩ | ⟨header, ty, hlegal, -⟩)
      · rfl
      · rw [hlegal.annotated] at hkey
        cases hkey
  · constructor
    · intro h
      cases raw with
      | string header =>
        obtain ⟨hne, htoken, hnew, ty, name, hty, hname, rfl⟩ := (visitAnnotation_string hkey).mp h
        rw [headerNameFromBytes_eq law htoken] at hname
        split at hname
        · rename_i hshort
          cases hname
          exact .inr ⟨header, ty, ⟨hkey, hne, htoken, hshort, hty⟩, hnew, rfl⟩
        · cases hname
      | _ =>
        unfold visitAnnotation at h
        rw [hkey] at h
        cases h
    · rintro (⟨hnone, -⟩ | ⟨header, ty, hlegal, hnew, rfl⟩)
      · cases hnone
      · refine (visitAnnotation_string hlegal.annotated).mpr
          ⟨hlegal.nonempty, hlegal.token, hnew, ty, _, hlegal.type, ?_, rfl⟩
        rw [headerNameFromBytes_eq law hlegal.token, if_pos hlegal.short]

omit law

/-! ## The run of the loop -/

/-- A schema, found at its path, carries the annotation's key. -/
def isAnnotated (found : List String × JsonObject) : Bool := (found.2.get? "x-mcp-header").isSome

/-- The header name that a schema is annotated with, in lower case. -/
def lowerName (found : List String × JsonObject) : Option String :=
  ((found.2.get? "x-mcp-header").bind Value.asStr).map toAsciiLowercase

/-- The entry `a` says what a schema is legally annotated with. -/
def EntryOf (limit : Nat) (found : List String × JsonObject) (a : ParamHeaderAnnotation) : Prop :=
  ∃ header ty, LegalAnnotation limit found.2 header ty ∧ a = entryFor found.1 header ty

theorem EntryOf.lowerName_eq {found : List String × JsonObject} {header : String} {ty : ParameterType}
    (h : LegalAnnotation limit found.2 header ty) : lowerName found = some (toAsciiLowercase header) := by
  rw [lowerName, h.annotated]
  rfl

/-- The loop went over the schemas `schemas`: all their annotations are legal, their names are new and different,
and there is one more entry for each. -/
structure Found (limit : Nat) (schemas : List (List String × JsonObject)) (walk walk' : Walk) : Prop where
  entries : ∃ as, walk'.annotations = walk.annotations ++ as ∧
    List.Forall₂ (EntryOf limit) (schemas.filter isAnnotated) as
  seen : walk'.seenHeaders = (schemas.filterMap lowerName).reverse ++ walk.seenHeaders
  distinct : (schemas.filterMap lowerName).Nodup
  fresh : ∀ name ∈ schemas.filterMap lowerName, name ∉ walk.seenHeaders

theorem found_nil {walk walk' : Walk} : Found limit [] walk walk' ↔ walk' = walk := by
  constructor
  · rintro ⟨⟨as, has, hf⟩, hseen, -, -⟩
    cases hf
    cases walk
    cases walk'
    simp_all
  · rintro rfl
    exact ⟨⟨[], by simp, .nil⟩, by simp, by simp, by simp⟩

/-- A schema without the key adds nothing. -/
theorem found_cons_plain {found : List String × JsonObject} {schemas : List (List String × JsonObject)}
    {walk walk' : Walk} (hkey : found.2.get? "x-mcp-header" = none) :
    Found limit (found :: schemas) walk walk' ↔ Found limit schemas walk walk' := by
  have hname : (found :: schemas).filterMap lowerName = schemas.filterMap lowerName :=
    List.filterMap_cons_none (by rw [lowerName, hkey]; rfl)
  have hfilter : (found :: schemas).filter isAnnotated = schemas.filter isAnnotated :=
    List.filter_cons_of_neg (by simp [isAnnotated, hkey])
  constructor
  · rintro ⟨hentries, hseen, hdistinct, hfresh⟩
    rw [hname] at hseen hdistinct hfresh
    rw [hfilter] at hentries
    exact ⟨hentries, hseen, hdistinct, hfresh⟩
  · rintro ⟨hentries, hseen, hdistinct, hfresh⟩
    rw [← hname] at hseen hdistinct hfresh
    rw [← hfilter] at hentries
    exact ⟨hentries, hseen, hdistinct, hfresh⟩

/-- A schema with the key adds one entry and one name, if its annotation is legal and the name new. -/
theorem found_cons_annotated {found : List String × JsonObject} {schemas : List (List String × JsonObject)}
    {walk walk' : Walk} (hkey : isAnnotated found) :
    Found limit (found :: schemas) walk walk' ↔
      ∃ header ty, LegalAnnotation limit found.2 header ty ∧ toAsciiLowercase header ∉ walk.seenHeaders ∧
        Found limit schemas
          ⟨toAsciiLowercase header :: walk.seenHeaders, walk.annotations ++ [entryFor found.1 header ty]⟩ walk' := by
  have hfilter : (found :: schemas).filter isAnnotated = found :: schemas.filter isAnnotated :=
    List.filter_cons_of_pos hkey
  constructor
  · rintro ⟨⟨as, has, hf⟩, hseen, hdistinct, hfresh⟩
    rw [hfilter] at hf
    cases hf with
    | @cons _ a _ rest ha hrest =>
      obtain ⟨header, ty, hlegal, rfl⟩ := ha
      rw [List.filterMap_cons_some (EntryOf.lowerName_eq hlegal)] at hseen hdistinct hfresh
      obtain ⟨hnew, hdistinct⟩ := List.nodup_cons.mp hdistinct
      refine ⟨header, ty, hlegal, hfresh _ List.mem_cons_self,
        ⟨⟨rest, by simp [has], hrest⟩, by simp [hseen], hdistinct, ?_⟩⟩
      intro name hm hseen
      rcases List.mem_cons.mp hseen with rfl | hseen
      · exact hnew hm
      · exact hfresh name (List.mem_cons_of_mem _ hm) hseen
  · rintro ⟨header, ty, hlegal, hnew, ⟨as, has, hf⟩, hseen, hdistinct, hfresh⟩
    have hname := List.filterMap_cons_some (l := schemas) (EntryOf.lowerName_eq hlegal)
    refine ⟨⟨entryFor found.1 header ty :: as, by simp [has], ?_⟩, ?_, ?_, ?_⟩
    · rw [hfilter]
      exact .cons ⟨header, ty, hlegal, rfl⟩ hf
    · rw [hname, hseen]
      simp
    · rw [hname]
      exact List.nodup_cons.mpr ⟨fun hm => hfresh _ hm List.mem_cons_self, hdistinct⟩
    · rw [hname]
      intro name hm
      rcases List.mem_cons.mp hm with rfl | hm
      · exact hnew
      · exact fun h => hfresh name hm (List.mem_cons_of_mem _ h)

/-- One schema, then the rest: the step is that of `visitAnnotation_eq_ok`. -/
theorem found_cons {path : List String} {schema : JsonObject} {schemas : List (List String × JsonObject)}
    {walk walk' : Walk} :
    Found limit ((path, schema) :: schemas) walk walk' ↔
      ∃ walk₁, ((schema.get? "x-mcp-header" = none ∧ walk₁ = walk) ∨
        ∃ header ty, LegalAnnotation limit schema header ty ∧ toAsciiLowercase header ∉ walk.seenHeaders ∧
          walk₁ = ⟨toAsciiLowercase header :: walk.seenHeaders, walk.annotations ++ [entryFor path header ty]⟩) ∧
        Found limit schemas walk₁ walk' := by
  rcases hkey : schema.get? "x-mcp-header" with _ | raw
  · rw [found_cons_plain hkey]
    constructor
    · intro h
      exact ⟨walk, .inl ⟨rfl, rfl⟩, h⟩
    · rintro ⟨walk₁, ⟨-, rfl⟩ | ⟨header, ty, hlegal, -⟩, h⟩
      · exact h
      · rw [hlegal.annotated] at hkey
        cases hkey
  · rw [found_cons_annotated (by rw [isAnnotated, hkey]; rfl)]
    constructor
    · rintro ⟨header, ty, hlegal, hnew, h⟩
      exact ⟨_, .inr ⟨header, ty, hlegal, hnew, rfl⟩, h⟩
    · rintro ⟨walk₁, ⟨hnone, -⟩ | ⟨header, ty, hlegal, hnew, rfl⟩, h⟩
      · cases hnone
      · exact ⟨header, ty, hlegal, hnew, h⟩

theorem visit_elsewhere {schemaPath : String} {v : Value} {walk walk' : Walk} :
    visit codecs walk (.elsewhere schemaPath v) = .ok walk' ↔ Clean v ∧ walk' = walk := by
  rw [visit, except_bind_eq_ok, ← rejectUnreachableAnnotations_eq_ok schemaPath v]
  constructor
  · rintro ⟨⟨⟩, hreject, hwalk⟩
    cases hwalk
    exact ⟨hreject, rfl⟩
  · rintro ⟨hreject, rfl⟩
    exact ⟨(), hreject, rfl⟩

include law

/-- A run over visits succeeds when the rejected values are clean and the schemas' annotations legal and of new,
different names. -/
theorem foldlM_visit_eq_ok {visits : List Visit} {walk walk' : Walk} :
    visits.foldlM (visit codecs) walk = .ok walk' ↔
      (∀ schemaPath v, .elsewhere schemaPath v ∈ visits → Clean v) ∧
        Found limit (visits.filterMap Visit.schema?) walk walk' := by
  induction visits generalizing walk with
  | nil =>
    simp only [List.foldlM_nil, pure, Except.pure, Except.ok.injEq, List.filterMap_nil, found_nil]
    simp [eq_comm]
  | cons x rest ih =>
    rw [List.foldlM_cons, except_bind_eq_ok]
    cases x with
    | elsewhere schemaPath v =>
      have hmem : (∀ p w, .elsewhere p w ∈ Visit.elsewhere schemaPath v :: rest → Clean w) ↔
          Clean v ∧ ∀ p w, .elsewhere p w ∈ rest → Clean w := by
        constructor
        · intro h
          exact ⟨h _ _ List.mem_cons_self, fun p w hm => h p w (List.mem_cons_of_mem _ hm)⟩
        · rintro ⟨hv, hrest⟩ p w hm
          rcases List.mem_cons.mp hm with heq | hm
          · cases heq
            exact hv
          · exact hrest p w hm
      rw [List.filterMap_cons_none rfl, hmem]
      simp only [visit_elsewhere, ih]
      constructor
      · rintro ⟨_, ⟨hv, rfl⟩, hclean, hfound⟩
        exact ⟨⟨hv, hclean⟩, hfound⟩
      · rintro ⟨⟨hv, hclean⟩, hfound⟩
        exact ⟨walk, ⟨hv, rfl⟩, hclean, hfound⟩
    | schema schemaPath path schema =>
      have hcons : (Visit.schema schemaPath path schema :: rest).filterMap Visit.schema? =
          (path, schema) :: rest.filterMap Visit.schema? :=
        List.filterMap_cons_some rfl
      have hmem : (∀ p v, .elsewhere p v ∈ Visit.schema schemaPath path schema :: rest → Clean v) ↔
          ∀ p v, .elsewhere p v ∈ rest → Clean v := by
        simp
      rw [hmem, hcons, found_cons]
      simp only [visit, visitAnnotation_eq_ok law, ih]
      constructor
      · rintro ⟨walk₁, hstep, hclean, hfound⟩
        exact ⟨hclean, walk₁, hstep, hfound⟩
      · rintro ⟨hclean, walk₁, hstep, hfound⟩
        exact ⟨walk₁, hstep, hclean, hfound⟩

omit law in
/-- At the root there must be no annotation. -/
theorem visitAnnotation_root {root : JsonObject} {walk : Walk} :
    visitAnnotation codecs root "$" none {} = .ok walk ↔ root.get? "x-mcp-header" = none ∧ walk = {} := by
  unfold visitAnnotation
  rcases root.get? "x-mcp-header" with _ | v
  · simp [eq_comm]
  · simp

/-- The whole walk. -/
theorem paramHeaderAnnotations_eq_ok {root : JsonObject} {as : List ParamHeaderAnnotation} :
    paramHeaderAnnotations codecs root = .ok as ↔
      root.get? "x-mcp-header" = none ∧ (∀ v, Beyond root v → Clean v) ∧
        ∃ walk, Found limit (reachableSchemas root) {} walk ∧ walk.annotations = as := by
  have hbeyond : (∀ v, Beyond root v → Clean v) ↔
      ∀ p v, .elsewhere p v ∈ visitsOfKeywords "$" [] root → Clean v := by
    simp only [beyond_iff_visited, forall_exists_index]
    exact forall_comm
  rw [paramHeaderAnnotations, except_bind_eq_ok, hbeyond, reachableSchemas_eq]
  constructor
  · rintro ⟨walk, hwalk, has⟩
    obtain ⟨walk₀, hroot, hrun⟩ := except_bind_eq_ok.mp hwalk
    obtain ⟨hkey, rfl⟩ := visitAnnotation_root.mp hroot
    rw [visitKeywords_eq] at hrun
    obtain ⟨hclean, hfound⟩ := (foldlM_visit_eq_ok law).mp hrun
    exact ⟨hkey, hclean, walk, (found_cons_plain hkey).mpr hfound, Except.ok.inj has⟩
  · rintro ⟨hkey, hclean, walk, hfound, rfl⟩
    refine ⟨walk, except_bind_eq_ok.mpr ⟨{}, visitAnnotation_root.mpr ⟨hkey, rfl⟩, ?_⟩, rfl⟩
    rw [visitKeywords_eq]
    exact (foldlM_visit_eq_ok law).mpr ⟨hclean, (found_cons_plain hkey).mp hfound⟩

omit law

/-! ## Legal schemas -/

/-- The reachable schemas that carry the annotation's key, in document order. -/
def annotatedSchemas (root : JsonObject) : List (List String × JsonObject) :=
  (reachableSchemas root).filter isAnnotated

/-- A schema all of whose annotations are legal. -/
structure LegalSchema (limit : Nat) (root : JsonObject) : Prop where
  root_plain : root.get? "x-mcp-header" = none
  legal : ∀ path schema, Reachable root path schema → path ≠ [] → schema.get? "x-mcp-header" ≠ none →
    ∃ header ty, LegalAnnotation limit schema header ty
  distinct : (annotatedSchemas root).Pairwise fun s t => ∀ header header',
    s.2.get? "x-mcp-header" = some (.string header) → t.2.get? "x-mcp-header" = some (.string header') →
    toAsciiLowercase header ≠ toAsciiLowercase header'
  elsewhere : ∀ v o, Beyond root v → Nested v o → o.get? "x-mcp-header" = none

theorem lowerName_eq_some {found : List String × JsonObject} {name : String} :
    lowerName found = some name ↔
      ∃ header, found.2.get? "x-mcp-header" = some (.string header) ∧ toAsciiLowercase header = name := by
  rw [lowerName]
  rcases found.2.get? "x-mcp-header" with _ | v
  · simp
  · cases v <;> simp [Value.asStr]

/-- Only annotated schemas have names. -/
theorem filterMap_annotated (schemas : List (List String × JsonObject)) :
    (schemas.filter isAnnotated).filterMap lowerName = schemas.filterMap lowerName := by
  rw [List.filterMap_filter]
  refine List.filterMap_congr fun found _ => ?_
  rw [isAnnotated, lowerName]
  rcases found.2.get? "x-mcp-header" with _ | v <;> simp

/-- Names that differ in more than case, as the walk checks it. -/
theorem nodup_lowerName {root : JsonObject} :
    ((reachableSchemas root).filterMap lowerName).Nodup ↔
      (annotatedSchemas root).Pairwise fun s t => ∀ header header',
        s.2.get? "x-mcp-header" = some (.string header) → t.2.get? "x-mcp-header" = some (.string header') →
        toAsciiLowercase header ≠ toAsciiLowercase header' := by
  rw [annotatedSchemas, ← filterMap_annotated, List.Nodup, List.pairwise_filterMap]
  constructor
  · intro h
    refine h.imp fun hne header header' hs ht => ?_
    exact hne _ (lowerName_eq_some.mpr ⟨header, hs, rfl⟩) _ (lowerName_eq_some.mpr ⟨header', ht, rfl⟩)
  · intro h
    refine h.imp fun hne name hs name' ht => ?_
    obtain ⟨header, hheader, rfl⟩ := lowerName_eq_some.mp hs
    obtain ⟨header', hheader', rfl⟩ := lowerName_eq_some.mp ht
    exact hne header header' hheader hheader'

theorem exists_forall₂ {α β : Type} {R : α → β → Prop} {xs : List α} :
    (∃ ys, List.Forall₂ R xs ys) ↔ ∀ x ∈ xs, ∃ y, R x y := by
  induction xs with
  | nil => simp
  | cons x xs ih =>
    rw [List.forall_mem_cons, ← ih]
    constructor
    · rintro ⟨ys, h⟩
      cases h with
      | cons hy hys => exact ⟨⟨_, hy⟩, _, hys⟩
    · rintro ⟨⟨y, hy⟩, ys, hys⟩
      exact ⟨y :: ys, .cons hy hys⟩

theorem toAsciiLowercase_append (s t : String) :
    toAsciiLowercase (s ++ t) = toAsciiLowercase s ++ toAsciiLowercase t := by
  apply String.toList_injective
  simp [toAsciiLowercase]

/-- The header names of the entries are the annotated names behind the fixed start. -/
theorem map_headerName {schemas : List (List String × JsonObject)} {as : List ParamHeaderAnnotation}
    (h : List.Forall₂ (EntryOf limit) schemas as) :
    as.map (·.headerName) =
      (schemas.filterMap lowerName).map fun name => toAsciiLowercase headerMcpParamPrefix ++ name := by
  induction h with
  | nil => rfl
  | cons ha hrest ih =>
    obtain ⟨header, ty, hlegal, rfl⟩ := ha
    rw [List.filterMap_cons_some (EntryOf.lowerName_eq hlegal), List.map_cons, List.map_cons, ih, entryFor,
      toAsciiLowercase_append]

/-- A run over the reachable schemas from nothing exists exactly when their annotations are legal and of different
names. -/
theorem exists_found {root : JsonObject} (hroot : root.get? "x-mcp-header" = none) :
    (∃ walk, Found limit (reachableSchemas root) {} walk) ↔
      (∀ path schema, Reachable root path schema → path ≠ [] → schema.get? "x-mcp-header" ≠ none →
        ∃ header ty, LegalAnnotation limit schema header ty) ∧ ((reachableSchemas root).filterMap lowerName).Nodup := by
  constructor
  · rintro ⟨walk, ⟨as, -, hf⟩, -, hdistinct, -⟩
    refine ⟨fun path schema hr _ hkey => ?_, hdistinct⟩
    have hm : (path, schema) ∈ (reachableSchemas root).filter isAnnotated :=
      List.mem_filter.mpr ⟨mem_reachableSchemas.mpr hr, Option.isSome_iff_ne_none.mpr hkey⟩
    obtain ⟨a, header, ty, hlegal, -⟩ := exists_forall₂.mp ⟨as, hf⟩ (path, schema) hm
    exact ⟨header, ty, hlegal⟩
  · rintro ⟨hlegal, hdistinct⟩
    have hentries : ∀ found ∈ (reachableSchemas root).filter isAnnotated, ∃ a, EntryOf limit found a := by
      rintro ⟨path, schema⟩ hm
      obtain ⟨hm, hkey⟩ := List.mem_filter.mp hm
      have hr := mem_reachableSchemas.mp hm
      have hpath : path ≠ [] := by
        intro hnil
        rw [isAnnotated, hr.eq_root hnil, hroot] at hkey
        cases hkey
      obtain ⟨header, ty, h⟩ := hlegal path schema hr hpath (Option.isSome_iff_ne_none.mp hkey)
      exact ⟨_, header, ty, h, rfl⟩
    obtain ⟨as, has⟩ := exists_forall₂.mpr hentries
    exact ⟨⟨((reachableSchemas root).filterMap lowerName).reverse, as⟩, ⟨as, rfl, has⟩, by simp, hdistinct, by simp⟩

/-- The walk finds exactly the legal annotations: it succeeds on the schemas all of whose annotations are legal, and
then has one entry for each annotated schema, in document order and under different header names. The document
order lists the reachable schemas and, keys being unique, each path once. -/
theorem paramHeaderAnnotations_exact {codecs : Codecs} {limit : Nat} (law : HeaderNameLaw codecs limit)
    (root : JsonObject) :
    (∀ path schema, (path, schema) ∈ reachableSchemas root ↔ Reachable root path schema) ∧
      (UniqueKeys (.object root) → ((reachableSchemas root).map (·.1)).Nodup) ∧
      ((∃ as, paramHeaderAnnotations codecs root = .ok as) ↔ LegalSchema limit root) ∧
      ∀ as, paramHeaderAnnotations codecs root = .ok as →
        List.Forall₂
            (fun found a => ∃ header ty, LegalAnnotation limit found.2 header ty ∧ a = entryFor found.1 header ty)
            (annotatedSchemas root) as ∧
          (as.map (·.headerName)).Nodup := by
  refine ⟨fun _ _ => mem_reachableSchemas, nodup_reachableSchemas, ?_, ?_⟩
  · constructor
    · rintro ⟨as, h⟩
      obtain ⟨hroot, hclean, walk, hfound, -⟩ := (paramHeaderAnnotations_eq_ok law).mp h
      obtain ⟨hlegal, hdistinct⟩ := (exists_found hroot).mp ⟨walk, hfound⟩
      exact ⟨hroot, hlegal, nodup_lowerName.mp hdistinct, fun v o hv => hclean v hv o⟩
    · rintro ⟨hroot, hlegal, hdistinct, hclean⟩
      obtain ⟨walk, hfound⟩ := (exists_found hroot).mpr ⟨hlegal, nodup_lowerName.mpr hdistinct⟩
      exact ⟨walk.annotations,
        (paramHeaderAnnotations_eq_ok law).mpr ⟨hroot, fun v hv o => hclean v o hv, walk, hfound, rfl⟩⟩
  · intro as h
    obtain ⟨-, -, walk, ⟨⟨as', has, hf⟩, -, hdistinct, -⟩, rfl⟩ := (paramHeaderAnnotations_eq_ok law).mp h
    have heq : walk.annotations = as' := has.trans (List.nil_append as')
    rw [heq]
    refine ⟨hf, ?_⟩
    rw [map_headerName hf, filterMap_annotated]
    exact hdistinct.map fun name name' h => (String.append_right_inj _).mp h

end

/-- `HeaderName::from_bytes` on names that are tokens of at most 65535 bytes; it takes no others. -/
def tokenCodecs : Codecs where
  headerNameFromBytes s :=
    if s ≠ "" ∧ s.toList.all isTchar ∧ s.length ≤ 65535 then some (toAsciiLowercase s) else none
  base64Decode _ := none

theorem tokenCodecs_law : HeaderNameLaw tokenCodecs 65535 where
  accepts s hne htoken hshort := if_pos ⟨hne, htoken, hshort⟩
  refuses s hlong := if_neg fun h => by omega

/-- A parameter named like the annotation's key, below an object parameter. -/
def nestedSchema : JsonObject :=
  [("type", .string "object"),
    ("properties", .object
      [("region", .object [("type", .string "string"), ("x-mcp-header", .string "Region")]),
        ("filter", .object [("properties", .object
          [("x-mcp-header", .object [("x-mcp-header", .string "Limit"), ("type", .string "integer")])])])])]

theorem paramHeaderAnnotations_exact_nested :
    paramHeaderAnnotations tokenCodecs nestedSchema =
        .ok [⟨"mcp-param-region", "Mcp-Param-Region", .string, ["region"]⟩,
          ⟨"mcp-param-limit", "Mcp-Param-Limit", .integer, ["filter", "x-mcp-header"]⟩] ∧
      LegalSchema 65535 nestedSchema := by
  have h : paramHeaderAnnotations tokenCodecs nestedSchema =
      .ok [⟨"mcp-param-region", "Mcp-Param-Region", .string, ["region"]⟩,
        ⟨"mcp-param-limit", "Mcp-Param-Limit", .integer, ["filter", "x-mcp-header"]⟩] := by
    decide +kernel
  exact ⟨h, (paramHeaderAnnotations_exact tokenCodecs_law nestedSchema).2.2.1.mp ⟨_, h⟩⟩

end DataPlane.Headers
