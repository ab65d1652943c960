/-
From the path of a request to the virtual host its handler works on: `extract_virtual_host_id` and its layer, the
layers behind it, `virtual_host_config_layer`, and the call validator. The id is cut out of the path by a test of its
start and a test of its end that are made on their own. Where the two overlap the slice does not exist, and a piece
between them need not be one segment; on every other path the extraction is exact and a handler sees the host of that
segment alone.
-/
import DataPlane.Gateway.Routing
import DataPlane.Lib.Checked

namespace DataPlane.Gateway

open Rust

/-! ## The layers -/

def serversPrefix : List Char := "/servers/".toList
def mcpSuffix : List Char := "/mcp".toList

/-- `extract_virtual_host_id`. -/
def extractVirtualHostId (path : String) : Checked String :=
  if serversPrefix.isPrefixOf path.toList then
    if mcpSuffix.isSuffixOf path.toList then do
      let l1 := Utf8.byteLength serversPrefix
      let l2 ← ofExcept (subUsize (Utf8.byteLength path.toList) (Utf8.byteLength mcpSuffix))
      let vh ← ofExcept (sliceStr path.toList l1 l2)
      return String.ofList vh
    else failure
  else failure

/-- A response made by a layer. -/
structure Response where
  status : Nat
  contentType : String
  body : String
  deriving DecidableEq

/-- `custom_error`. -/
def customError (status : Nat) (message : String) : Response := ⟨status, "text/plain", message⟩

def badRequest (message : String) : Response := customError 400 message

def serverNotFoundResponse : Response :=
  ⟨404, "application/json", "\x7b\"detail\":\"Server not found\"\x7d"⟩

/-- A request on its way through the layers, with its extensions. -/
structure Request where
  path : String
  parts : Parts

/-- What becomes of a request: a layer answers it, or the MCP service gets it, with these `Parts`. -/
inductive Reply where
  | answered (response : Response)
  | served (parts : Parts)

/-- The layers behind `virtual_host_id_layer` that authenticate the request and load its configuration: each answers
or passes the request on with the extensions it adds. -/
abbrev Authorization := Request → Response ⊕ (Option UserConfig × Option Json.Value)

def virtualHostIdLayer (request : Request) (next : Request → Except Fault Reply) : Except Fault Reply :=
  match (extractVirtualHostId request.path).run with
  | .error fault => .error fault
  | .ok (some id) => next { request with parts := { request.parts with virtualHostId := some id } }
  | .ok none => .ok (.answered (badRequest "Problem occured retrieving the configuration"))

def hasVirtualHost (userConfig : UserConfig) (virtualHostId : String) : Bool :=
  (userConfig.virtualHosts.lookup virtualHostId).isSome

def virtualHostConfigLayer (request : Request) (next : Request → Except Fault Reply) : Except Fault Reply :=
  match request.parts.virtualHostId, request.parts.userConfig with
  | some virtualHostId, some userConfig =>
    if hasVirtualHost userConfig virtualHostId then next request else .ok (.answered serverNotFoundResponse)
  | _, _ => next request

/-- The layers in the order of the router, for every path: the routes in front of them, which answer 404 to a path that
is not under `/servers/{id}/mcp`, are left out, so that more requests come to the layers here than do behind them. -/
def router (authorize : Authorization) (request : Request) : Except Fault Reply :=
  virtualHostIdLayer request fun request =>
    match authorize request with
    | .inl response => .ok (.answered response)
    | .inr (userConfig, claims) =>
      virtualHostConfigLayer { request with parts := { request.parts with userConfig, claims } } fun request =>
        .ok (.served request.parts)

/-! ## The extraction -/

/-- The two ends of a path either leave a piece between them or overlap. -/
theorem between_or_overlap {α : Type} {front back path : List α} (hf : front <+: path) (hb : back <:+ path) :
    (∃ piece, path = front ++ (piece ++ back)) ∨ path.length < front.length + back.length := by
  by_cases hlen : path.length < front.length + back.length
  · exact .inr hlen
  · obtain ⟨rest, rfl⟩ := hf
    rw [List.length_append] at hlen
    have hrest : rest <:+ front ++ rest := List.suffix_append front rest
    obtain ⟨piece, rfl⟩ := List.suffix_of_suffix_length_le hb hrest (by omega)
    exact .inl ⟨piece, rfl⟩

/-- The only path whose ends overlap. -/
theorem overlap_eq {path : List Char} (hf : serversPrefix <+: path) (hb : mcpSuffix <:+ path)
    (hlen : path.length < serversPrefix.length + mcpSuffix.length) : path = "/servers/mcp".toList := by
  obtain ⟨rest, rfl⟩ := hf
  rw [List.length_append] at hlen
  have hrest : rest <:+ mcpSuffix :=
    List.suffix_of_suffix_length_le (List.suffix_append serversPrefix rest) hb (by omega)
  have htails : rest ∈ ["/mcp".toList, "mcp".toList, "cp".toList, "p".toList, []] :=
    (List.mem_tails rest mcpSuffix).mpr hrest
  simp only [List.mem_cons, List.not_mem_nil, or_false] at htails
  rcases htails with rfl | rfl | rfl | rfl | rfl
  · exact absurd hlen (by decide)
  · rfl
  · exact absurd hb (by decide)
  · exact absurd hb (by decide)
  · exact absurd hb (by decide)

theorem toList_between (id : String) :
    ("/servers/" ++ id ++ "/mcp").toList = serversPrefix ++ (id.toList ++ mcpSuffix) := by
  rw [String.toList_append, String.toList_append, List.append_assoc]
  rfl

/-- A piece between the two ends is the id, whatever it is. -/
theorem extractVirtualHostId_between (id : String) :
    Returns (extractVirtualHostId ("/servers/" ++ id ++ "/mcp")) (some id) := by
  have hprefix : serversPrefix.isPrefixOf (serversPrefix ++ (id.toList ++ mcpSuffix)) = true :=
    List.isPrefixOf_iff_prefix.mpr (List.prefix_append _ _)
  have hsuffix : mcpSuffix.isSuffixOf (serversPrefix ++ (id.toList ++ mcpSuffix)) = true := by
    rw [← List.append_assoc]
    exact List.isSuffixOf_iff_suffix.mpr (List.suffix_append _ _)
  have hend : subUsize (Utf8.byteLength (serversPrefix ++ (id.toList ++ mcpSuffix))) (Utf8.byteLength mcpSuffix) =
      .ok (Utf8.byteLength (serversPrefix ++ id.toList)) := by
    rw [← List.append_assoc, Utf8.byteLength_append _ mcpSuffix, subUsize, if_pos (by omega), Nat.add_sub_cancel]
  unfold extractVirtualHostId
  rw [toList_between, hprefix, hsuffix]
  refine Returns.bind_some (.ofExcept hend) ?_
  refine Returns.bind_some (.ofExcept (sliceStr_append serversPrefix id.toList mcpSuffix)) ?_
  rw [String.ofList_toList]
  exact .pure id

theorem extractVirtualHostId_overlap : (extractVirtualHostId "/servers/mcp").run = .error .slice := by
  decide +kernel

/-- What the extraction does on any path: the slice does not exist where the ends overlap, between them it is the
piece, and there is no id without both of them. -/
theorem extractVirtualHostId_cases (path : String) :
    path = "/servers/mcp" ∨ (∃ id, path = "/servers/" ++ id ++ "/mcp") ∨
      ((∀ id, path ≠ "/servers/" ++ id ++ "/mcp") ∧ Returns (extractVirtualHostId path) none) := by
  by_cases hends : serversPrefix <+: path.toList ∧ mcpSuffix <:+ path.toList
  · obtain ⟨hf, hb⟩ := hends
    rcases between_or_overlap hf hb with ⟨piece, hpiece⟩ | hlen
    · refine .inr (.inl ⟨String.ofList piece, String.toList_injective ?_⟩)
      rw [toList_between, String.toList_ofList, hpiece]
    · exact .inl (String.toList_injective (overlap_eq hf hb hlen))
  · refine .inr (.inr ⟨?_, ?_⟩)
    · rintro id rfl
      rw [toList_between] at hends
      refine hends ⟨List.prefix_append _ _, ?_⟩
      rw [← List.append_assoc]
      exact List.suffix_append _ _
    · rw [← List.isPrefixOf_iff_prefix, ← List.isSuffixOf_iff_suffix] at hends
      unfold extractVirtualHostId
      split
      · rename_i hf
        rw [if_neg fun hb => hends ⟨hf, hb⟩]
        exact .failure
      · exact .failure

/-! ## From the path to the handler -/

/-- The path has one segment between its ends, and that segment is `id`. -/
def SingleSegment (path id : String) : Prop := path = "/servers/" ++ id ++ "/mcp" ∧ id ≠ "" ∧ '/' ∉ id.toList

/-- The extraction and what rests on it do what they are for on a path. -/
structure ExactAt (path : String) : Prop where
  /-- It returns, and the id is the single segment. -/
  extract : ∃ r, (extractVirtualHostId path).run = .ok r ∧ ∀ id, r = some id ↔ SingleSegment path id
  /-- A handler sees the virtual host of that segment. -/
  handler : ∀ (authorize : Authorization) (parts parts' : Parts) (standardHeaders : Bool) (host : VirtualHost),
    router authorize ⟨path, parts⟩ = .ok (.served parts') →
    (RequestContext.mk (some parts') standardHeaders).validateStateless = .ok host →
    ∃ id userConfig, SingleSegment path id ∧ parts'.userConfig = some userConfig ∧
      userConfig.virtualHosts.lookup id = some host
  /-- A path without such a segment gets an error response. -/
  refused : (∀ id, ¬ SingleSegment path id) → ∀ (authorize : Authorization) (parts : Parts),
    ∃ response, router authorize ⟨path, parts⟩ = .ok (.answered response) ∧ 400 ≤ response.status

/-- The MCP service gets a request with the extracted id. -/
theorem virtualHostId_of_served {authorize : Authorization} {path : String} {parts parts' : Parts}
    (h : router authorize ⟨path, parts⟩ = .ok (.served parts')) :
    ∃ id, (extractVirtualHostId path).run = .ok (some id) ∧ parts'.virtualHostId = some id := by
  unfold router virtualHostIdLayer at h
  dsimp only at h
  split at h
  · cases h
  · rename_i id hid
    refine ⟨id, hid, ?_⟩
    split at h
    · cases h
    · unfold virtualHostConfigLayer at h
      split at h
      · split at h
        · cases h
          rfl
        · cases h
      · cases h
        rfl
  · cases h

/-- The host a handler works on is that of the id in its request. -/
theorem validateStateless_eq_ok {parts : Parts} {standardHeaders : Bool} {host : VirtualHost} {id : String}
    (hid : parts.virtualHostId = some id)
    (h : (RequestContext.mk (some parts) standardHeaders).validateStateless = .ok host) :
    ∃ userConfig, parts.userConfig = some userConfig ∧ userConfig.virtualHosts.lookup id = some host := by
  unfold RequestContext.validateStateless at h
  rw [Option.bind_some, Option.bind_some, hid] at h
  rcases hconfig : parts.userConfig with _ | userConfig
  · rw [hconfig] at h
    cases h
  · rw [hconfig] at h
    dsimp only at h
    rcases hlookup : userConfig.virtualHosts.lookup id with _ | found
    · rw [hlookup] at h
      cases h
    · rw [hlookup] at h
      dsimp only at h
      split at h
      · cases h
      · cases h
        exact ⟨userConfig, rfl, hlookup⟩

theorem singleSegment_between {id id' : String} : SingleSegment ("/servers/" ++ id ++ "/mcp") id' ↔
    id = id' ∧ id ≠ "" ∧ '/' ∉ id.toList := by
  constructor
  · rintro ⟨heq, hne, hslash⟩
    obtain rfl : id = id' := (String.append_right_inj _).mp ((String.append_left_inj _).mp heq)
    exact ⟨rfl, hne, hslash⟩
  · rintro ⟨rfl, hne, hslash⟩
    exact ⟨rfl, hne, hslash⟩

/-- What is extracted exactly is what the handlers behind it see. -/
theorem ExactAt.of_extract {path : String} {r : Option String} (hr : (extractVirtualHostId path).run = .ok r)
    (hexact : ∀ id, r = some id ↔ SingleSegment path id) : ExactAt path where
  extract := ⟨r, hr, hexact⟩
  handler := by
    intro authorize parts parts' standardHeaders host hserved hhost
    obtain ⟨id, hid, hparts⟩ := virtualHostId_of_served hserved
    obtain ⟨userConfig, hconfig, hlookup⟩ := validateStateless_eq_ok hparts hhost
    obtain rfl : r = some id := Except.ok.inj (hr.symm.trans hid)
    exact ⟨id, userConfig, (hexact id).mp rfl, hconfig, hlookup⟩
  refused := by
    intro hnone authorize parts
    have hr' : r = none := Option.eq_none_iff_forall_ne_some.mpr fun id h => hnone id ((hexact id).mp h)
    refine ⟨badRequest "Problem occured retrieving the configuration", ?_, le_refl 400⟩
    unfold router virtualHostIdLayer
    dsimp only
    rw [hr, hr']

/-- The extraction is exact on a path, and the handlers behind it see the right host, unless its two ends overlap or
enclose no segment or more than one. -/
theorem virtualHosts_exactAt_iff (path : String) :
    ExactAt path ↔
      path ≠ "/servers/mcp" ∧ path ≠ "/servers//mcp" ∧ ∀ id, path = "/servers/" ++ id ++ "/mcp" → '/' ∉ id.toList := by
  constructor
  · rintro ⟨⟨r, hr, hexact⟩, -, -⟩
    -- between the ends the extraction gives any piece, so an exact one has found a segment
    have hpiece : ∀ id, path = "/servers/" ++ id ++ "/mcp" → id ≠ "" ∧ '/' ∉ id.toList := by
      rintro id rfl
      have heq := Except.ok.inj (hr.symm.trans (extractVirtualHostId_between id))
      exact (singleSegment_between.mp ((hexact id).mp heq)).2
    refine ⟨?_, ?_, fun id h => (hpiece id h).2⟩
    · rintro rfl
      rw [extractVirtualHostId_overlap] at hr
      cases hr
    · intro h
      exact (hpiece "" h).1 rfl
  · rintro ⟨hoverlap, hempty, hslash⟩
    rcases extractVirtualHostId_cases path with rfl | ⟨id, rfl⟩ | ⟨hnone, hr⟩
    · exact absurd rfl hoverlap
    · refine .of_extract (extractVirtualHostId_between id) fun id' => ?_
      have hne : id ≠ "" := by
        rintro rfl
        exact hempty rfl
      rw [singleSegment_between, Option.some.injEq]
      exact ⟨fun h => ⟨h, hne, hslash id rfl⟩, fun h => h.1⟩
    · refine .of_extract hr fun id => ?_
      exact ⟨nofun, fun h => absurd h.1 (hnone id)⟩

/-- The ends of `/servers/mcp` overlap and its slice does not exist; `/servers/a/mcp/b/mcp` gives an id of three
segments. -/
theorem virtualHosts_not_exactAt :
    (extractVirtualHostId "/servers/mcp").run = .error .slice ∧ ¬ ExactAt "/servers/mcp" ∧
      (extractVirtualHostId "/servers/a/mcp/b/mcp").run = .ok (some "a/mcp/b") ∧ ¬ ExactAt "/servers/a/mcp/b/mcp" := by
  have hsegments : (extractVirtualHostId "/servers/a/mcp/b/mcp").run = .ok (some "a/mcp/b") := by
    decide +kernel
  refine ⟨extractVirtualHostId_overlap, ?_, hsegments, ?_⟩
  · rintro ⟨⟨r, hr, -⟩, -, -⟩
    rw [extractVirtualHostId_overlap] at hr
    cases hr
  · rintro ⟨⟨r, hr, hexact⟩, -, -⟩
    obtain ⟨-, -, hslash⟩ := (hexact "a/mcp/b").mp (Except.ok.inj (hr.symm.trans hsegments))
    exact hslash (by decide)

end DataPlane.Gateway
