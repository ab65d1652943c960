/-
Resource reads under plugins: the projection of a read result onto CMF resources and the write-back
of an edited one, which replaces each resource's content and keeps the read envelope. The two are a
lens: an unedited projection is written back to the very result, an accepted edit is what a second
projection shows, and the exact set of accepted edits.
-/
import DataPlane.Cpex.Cmf
import DataPlane.Lib.Base64
import DataPlane.Lib.Lens

namespace DataPlane.Cpex

open DataPlane.Json

/-- `rmcp::model::ReadResourceResult`. -/
structure ReadResourceResult where
  contents : List ResourceContents
  metadata : Option JsonObject

/-- `BASE64_STANDARD`. -/
structure Base64 where
  decode : String → Option (List UInt8)
  encode : List UInt8 → String

/-- `resource_request_payload`. -/
def resourceRequestPayload (resourceUri resourceRequestId : String) : MessagePayload :=
  messagePayload .user [.resourceRef ⟨resourceRequestId, resourceUri, none, .uri, none, none, none⟩]

/-- `cmf_resource_content`. -/
def cmfResourceContent (base64 : Base64) (content : ResourceContents) (resourceRequestId : String) :
    Option CmfResource :=
  match content with
  | .text uri mimeType text _ => some { resourceRequestId, uri, content := some text, mimeType }
  | .blob uri mimeType blob _ => do
    let bytes ← base64.decode blob
    some { resourceRequestId, uri, blob := some bytes, mimeType }
  | .other _ => none

/-- `resource_result_payload`. -/
def resourceResultPayload (base64 : Base64) (response : ReadResourceResult) (resourceRequestId : String) :
    Option MessagePayload := do
  let content ← response.contents.mapM fun content =>
    (cmfResourceContent base64 content resourceRequestId).map .resource
  some (messagePayload .assistant content)

/-- The `_meta` a rewritten resource keeps. -/
def resourceMetadata : ResourceContents → Option (Option JsonObject)
  | .text _ _ _ metadata => some metadata
  | .blob _ _ _ metadata => some metadata
  | .other _ => none

/-- The Base64 text of an edited blob: that of the original while it decodes to the same bytes. -/
def resourceBlob (base64 : Base64) (original : ResourceContents) (bytes : List UInt8) : String :=
  match original with
  | .blob _ _ blob _ => if base64.decode blob = some bytes then blob else base64.encode bytes
  | _ => base64.encode bytes

/-- One round of the loop of `resource_result_response`. -/
def writeBackResource (base64 : Base64) (original : ResourceContents) (modified : ContentPart) :
    Option ResourceContents :=
  match modified with
  | .resource content => do
    let metadata ← resourceMetadata original
    match content.content, content.blob with
    | some text, _ => some (.text content.uri content.mimeType text metadata)
    | none, some bytes => some (.blob content.uri content.mimeType (resourceBlob base64 original bytes) metadata)
    | none, none => none
  | _ => none

/-- `resource_result_response`. -/
def resourceResultResponse (base64 : Base64) (original : ReadResourceResult) (payload : MessagePayload) :
    Option ReadResourceResult :=
  if payload.message.content.length ≠ original.contents.length then
    none
  else do
    let contents ← Lens.putAll (writeBackResource base64) original.contents payload.message.content
    some { original with contents }

/-- `impl CmfResponse for ReadResourceResult`. -/
def readResourceResultCmf (base64 : Base64) : CmfResponse ReadResourceResult where
  operation := .resource
  toPayload response _ id :=
    match resourceResultPayload base64 response id with
    | some payload => .ok payload
    | none => .error (.internalError "Resource response contains an unsupported content type")
  applyPayload response payload _ _ :=
    match resourceResultResponse base64 response payload with
    | some response => .ok response
    | none => .error (.internalError "Plugin returned a resource result the gateway cannot apply")

/-! ## The read result as a lens -/

/-- A part a resource can be written back from: a CMF resource with text or bytes. -/
def HasContent : ContentPart → Prop
  | .resource content => content.content.isSome ∨ content.blob.isSome
  | _ => False

/-- What a plugin reads in a part that the gateway projected is what another part says: the URI, the
MIME type and the text, or without text the bytes. -/
def Shows : ContentPart → ContentPart → Prop
  | .resource seen, .resource written =>
    seen.uri = written.uri ∧ seen.mimeType = written.mimeType ∧ seen.content = written.content ∧
      (written.content = none → seen.blob = written.blob)
  | _, _ => False

section Lens

variable {base64 : Base64} {original written : ResourceContents} {part : ContentPart} {resourceRequestId : String}

theorem writeBackResource_projected {content : CmfResource}
    (h : cmfResourceContent base64 original resourceRequestId = some content) :
    writeBackResource base64 original (.resource content) = some original := by
  cases original with
  | text uri mimeType text metadata =>
    cases h
    rfl
  | blob uri mimeType blob metadata =>
    simp only [cmfResourceContent, Option.bind_eq_bind, Option.bind_eq_some_iff, Option.some.injEq] at h
    obtain ⟨bytes, hbytes, rfl⟩ := h
    simp [writeBackResource, resourceMetadata, resourceBlob, hbytes]
  | other content => cases h

theorem writeBackResource_metadata (h : writeBackResource base64 original part = some written) :
    resourceMetadata written = resourceMetadata original := by
  cases part with
  | resource content =>
    simp only [writeBackResource, Option.bind_eq_bind, Option.bind_eq_some_iff] at h
    obtain ⟨metadata, hmetadata, h⟩ := h
    rw [hmetadata]
    split at h
    · cases h; rfl
    · cases h; rfl
    · cases h
  | _ => cases h

theorem decode_resourceBlob (hbase64 : ∀ bytes, base64.decode (base64.encode bytes) = some bytes)
    (original : ResourceContents) (bytes : List UInt8) :
    base64.decode (resourceBlob base64 original bytes) = some bytes := by
  unfold resourceBlob
  split
  · split
    · assumption
    · exact hbase64 bytes
  · exact hbase64 bytes

theorem writeBackResource_shows (hbase64 : ∀ bytes, base64.decode (base64.encode bytes) = some bytes)
    (resourceRequestId : String) (original : ResourceContents) (part : ContentPart) (written : ResourceContents)
    (h : writeBackResource base64 original part = some written) :
    ∃ seen, (cmfResourceContent base64 written resourceRequestId).map ContentPart.resource = some seen ∧
      Shows seen part := by
  cases part with
  | resource content =>
    simp only [writeBackResource, Option.bind_eq_bind, Option.bind_eq_some_iff] at h
    obtain ⟨metadata, -, h⟩ := h
    split at h
    next text _ htext =>
      cases h
      exact ⟨_, rfl, rfl, rfl, htext.symm, fun hnone => by rw [htext] at hnone; cases hnone⟩
    next bytes hnone hbytes =>
      cases h
      refine ⟨_, by simp only [cmfResourceContent, decode_resourceBlob hbase64]; rfl, ?_⟩
      exact ⟨rfl, rfl, hnone.symm, fun _ => hbytes.symm⟩
    next => cases h
  | _ => cases h

theorem writeBackResource_isSome (hmetadata : (resourceMetadata original).isSome) :
    (∃ written, writeBackResource base64 original part = some written) ↔ HasContent part := by
  obtain ⟨metadata, hmetadata⟩ := Option.isSome_iff_exists.mp hmetadata
  cases part with
  | resource content =>
    simp only [writeBackResource, hmetadata, HasContent, Option.bind_eq_bind, Option.bind_some]
    cases htext : content.content with
    | some text => simp
    | none => cases hblob : content.blob <;> simp
  | _ => simp [writeBackResource, HasContent]

end Lens

section ReadLens

variable {base64 : Base64} {response : ReadResourceResult} {resourceRequestId : String} {projected : MessagePayload}

theorem resourceResultPayload_eq_some :
    resourceResultPayload base64 response resourceRequestId = some projected ↔
      ∃ parts, projected = messagePayload .assistant parts ∧ response.contents.mapM (fun content =>
        (cmfResourceContent base64 content resourceRequestId).map ContentPart.resource) = some parts := by
  simp only [resourceResultPayload, Option.bind_eq_bind, Option.bind_eq_some_iff, Option.some.injEq]
  constructor
  · rintro ⟨parts, hparts, rfl⟩
    exact ⟨parts, rfl, hparts⟩
  · rintro ⟨parts, rfl, hparts⟩
    exact ⟨parts, hparts, rfl⟩

theorem resourceResultResponse_eq_some {payload : MessagePayload} {response' : ReadResourceResult} :
    resourceResultResponse base64 response payload = some response' ↔
      payload.message.content.length = response.contents.length ∧ response'.metadata = response.metadata ∧
        Lens.putAll (writeBackResource base64) response.contents payload.message.content =
          some response'.contents := by
  unfold resourceResultResponse
  split
  next hlen => simp [hlen]
  next hlen =>
    simp only [Option.bind_eq_bind, Option.bind_eq_some_iff, Option.some.injEq]
    constructor
    · rintro ⟨contents, hcontents, rfl⟩
      exact ⟨by omega, rfl, hcontents⟩
    · rintro ⟨-, hmetadata, hcontents⟩
      refine ⟨response'.contents, hcontents, ?_⟩
      rw [← hmetadata]

/-- The parts of a projection, each from its own content. -/
theorem parts_resourceResultPayload (h : resourceResultPayload base64 response resourceRequestId = some projected) :
    List.Forall₂ (fun content part =>
      (cmfResourceContent base64 content resourceRequestId).map ContentPart.resource = some part)
      response.contents projected.message.content := by
  obtain ⟨parts, rfl, hparts⟩ := resourceResultPayload_eq_some.mp h
  exact Lens.mapM_eq_some.mp hparts

theorem resourceMetadata_isSome_of_projected
    (h : resourceResultPayload base64 response resourceRequestId = some projected) :
    ∀ content ∈ response.contents, (resourceMetadata content).isSome := by
  intro content hcontent
  obtain ⟨i, hi, rfl⟩ := List.getElem_of_mem hcontent
  have hparts := parts_resourceResultPayload h
  have hpart := hparts.get hi (hparts.length_eq ▸ hi)
  cases hc : response.contents.get ⟨i, hi⟩ with
  | other content =>
    rw [hc] at hpart
    cases hpart
  | _ => simp_all [resourceMetadata]

/-- The write-back of an unedited projection is the read result itself. -/
theorem resourceResultResponse_projected
    (h : resourceResultPayload base64 response resourceRequestId = some projected) :
    resourceResultResponse base64 response projected = some response := by
  have hparts := parts_resourceResultPayload h
  refine resourceResultResponse_eq_some.mpr ⟨hparts.length_eq.symm, rfl, Lens.putAll_same (hparts.imp ?_)⟩
  intro content part hpart
  obtain ⟨resource, hresource, rfl⟩ := Option.map_eq_some_iff.mp hpart
  exact writeBackResource_projected hresource

/-- The write-back is accepted exactly for as many parts as there are contents, all with content. -/
theorem resourceResultResponse_isSome
    (h : resourceResultPayload base64 response resourceRequestId = some projected) {payload : MessagePayload} :
    (∃ response', resourceResultResponse base64 response payload = some response') ↔
      payload.message.content.length = response.contents.length ∧
        ∀ part ∈ payload.message.content, HasContent part := by
  have hmetadata := resourceMetadata_isSome_of_projected h
  constructor
  · rintro ⟨response', hresponse'⟩
    obtain ⟨hlen, -, hput⟩ := resourceResultResponse_eq_some.mp hresponse'
    refine ⟨hlen, fun part hpart => ?_⟩
    obtain ⟨i, hi, rfl⟩ := List.getElem_of_mem hpart
    have hi' : i < response.contents.length := by omega
    obtain ⟨t, -, ht⟩ := Lens.getElem?_putAll hput i _ _ (List.getElem?_eq_getElem hi') (List.getElem?_eq_getElem hi)
    exact (writeBackResource_isSome (hmetadata _ (List.getElem_mem hi'))).mp ⟨t, ht⟩
  · rintro ⟨hlen, hparts⟩
    have hput : ∃ contents, Lens.putAll (writeBackResource base64) response.contents payload.message.content =
        some contents := by
      refine (Lens.putAll_isSome hlen.symm).mpr (List.forall₂_iff_get.mpr ⟨hlen.symm, fun i hi hi' => ?_⟩)
      exact (writeBackResource_isSome (hmetadata _ (List.getElem_mem hi))).mpr (hparts _ (List.getElem_mem hi'))
    obtain ⟨contents, hcontents⟩ := hput
    exact ⟨{ response with contents }, resourceResultResponse_eq_some.mpr ⟨hlen, rfl, hcontents⟩⟩

end ReadLens

/-- Resource write-back is a lens on what MCP shows of the contents. An unedited projection changes
nothing, Base64 spelling included. An accepted edit can be projected again and then shows what the
plugin wrote, and it leaves the envelope, every `_meta` and the spelling of every blob whose bytes
were not edited. Accepted are the edits with one part per content, each a resource with text or
bytes. -/
theorem resourceResultResponse_lens (base64 : Base64)
    (hbase64 : ∀ bytes, base64.decode (base64.encode bytes) = some bytes) (response : ReadResourceResult)
    (resourceRequestId : String) (projected : MessagePayload)
    (h : resourceResultPayload base64 response resourceRequestId = some projected) :
    resourceResultResponse base64 response projected = some response ∧
    (∀ payload response', resourceResultResponse base64 response payload = some response' →
      (∀ id, ∃ again, resourceResultPayload base64 response' id = some again ∧
        List.Forall₂ Shows again.message.content payload.message.content) ∧
      (∀ (i : Nat) uri mimeType blob metadata content, response.contents[i]? = some (.blob uri mimeType blob metadata) →
        payload.message.content[i]? = some (.resource content) → content.content = none →
        content.blob = base64.decode blob →
          response'.contents[i]? = some (.blob content.uri content.mimeType blob metadata)) ∧
      response'.contents.map resourceMetadata = response.contents.map resourceMetadata ∧
      response'.metadata = response.metadata) ∧
    (∀ payload : MessagePayload, (∃ response', resourceResultResponse base64 response payload = some response') ↔
      payload.message.content.length = response.contents.length ∧
        ∀ part ∈ payload.message.content, HasContent part) := by
  refine ⟨resourceResultResponse_projected h, fun payload response' hresponse' => ?_,
    fun payload => resourceResultResponse_isSome h⟩
  obtain ⟨hlen, hmetadata, hput⟩ := resourceResultResponse_eq_some.mp hresponse'
  refine ⟨fun id => ?_, fun i uri mimeType blob metadata content hi hi' hnone hblob => ?_,
    Lens.map_putAll (fun _ _ _ => writeBackResource_metadata) hput, hmetadata⟩
  · obtain ⟨parts, hparts, hshows⟩ := Lens.project_putAll (writeBackResource_shows hbase64 id) hlen.symm hput
    exact ⟨_, resourceResultPayload_eq_some.mpr ⟨parts, rfl, hparts⟩, hshows⟩
  · obtain ⟨t, ht, hwrite⟩ := Lens.getElem?_putAll hput i _ _ hi hi'
    rw [ht]
    cases hbytes : base64.decode blob with
    | none => simp [writeBackResource, resourceMetadata, hnone, hblob, hbytes] at hwrite
    | some bytes =>
      simp only [writeBackResource, resourceMetadata, resourceBlob, hnone, hblob, hbytes, Option.bind_eq_bind,
        Option.bind_some, if_true, Option.some.injEq] at hwrite
      rw [← hwrite]

/-- Base64 with the standard alphabet, padded. -/
def base64Standard : Base64 := ⟨Rfc4648.decode, Rfc4648.encode⟩

/-- A text and a blob, each with its own `_meta`. -/
def sampleRead : ReadResourceResult where
  contents := [.text "file:///a" (some "text/plain") "a" (some [("k", .null)]), .blob "file:///b" none "aGk=" none]
  metadata := some [("page", .null)]

/-- What the plugins read of `sampleRead`. -/
def sampleProjected : MessagePayload :=
  messagePayload .assistant
    [.resource { resourceRequestId := "id", uri := "file:///a", content := some "a", mimeType := some "text/plain" },
      .resource { resourceRequestId := "id", uri := "file:///b", blob := some [104, 105] }]

theorem resourceResultResponse_lens_sampleRead :
    resourceResultPayload base64Standard sampleRead "id" = some sampleProjected ∧
      resourceResultResponse base64Standard sampleRead sampleProjected = some sampleRead := by
  have hprojected : resourceResultPayload base64Standard sampleRead "id" = some sampleProjected := by
    have hblob : base64Standard.decode "aGk=" = some [104, 105] := by decide +kernel
    simp [resourceResultPayload, sampleRead, cmfResourceContent, hblob, sampleProjected]
  exact ⟨hprojected,
    (resourceResultResponse_lens base64Standard Rfc4648.decode_encode sampleRead "id" sampleProjected hprojected).1⟩

end DataPlane.Cpex
