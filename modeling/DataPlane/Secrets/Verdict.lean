/-
The verdict of the secrets plugin on a whole payload: it is denied exactly when the findings in the parts of the
stage's kind reach the threshold, and otherwise goes on with every scanned string of these parts replaced by its
redaction and everything else as it was, whether the handler hands back a payload of its own or none.
-/
import DataPlane.Secrets.Config
import DataPlane.Secrets.Redaction

namespace DataPlane.Secrets

open DataPlane.Json DataPlane.Cpex

/-! ## What a payload becomes -/

section Redacted

variable (patterns : Patterns) (config : SecretsDetectionConfig)

/-- The arguments of a call with every scanned string redacted. -/
def redactedArguments (arguments : JsonObject) : JsonObject :=
  match (scanJsonValue patterns config (.object arguments)).redacted with
  | .object arguments' => arguments'
  | _ => arguments

/-- A part as a stage leaves it. -/
def redactedPart : Stage → ContentPart → ContentPart
  | .promptPreFetch, .promptRequest content =>
    .promptRequest { content with arguments := redactedArguments patterns config content.arguments }
  | .toolPreInvoke, .toolCall content =>
    .toolCall { content with arguments := redactedArguments patterns config content.arguments }
  | .toolPostInvoke, .toolResult content =>
    .toolResult { content with content := (scanJsonValue patterns config content.content).redacted }
  | .resourcePostFetch, .resource content =>
    .resource { content with content := content.content.map fun text => (detectAndRedact patterns config text).2 }
  | _, part => part

def redactedPayload (stage : Stage) (payload : MessagePayload) : MessagePayload :=
  ⟨{ payload.message with content := payload.message.content.map (redactedPart patterns config stage) }⟩

end Redacted

section Verdict

variable {patterns : Patterns} {config : SecretsDetectionConfig}

/-! ## Clean values stay -/

/-- Nothing is redacted in a text without a finding, or when redaction is off. -/
theorem detectAndRedact_of_clean {text : String}
    (h : config.redact = false ∨ (detectAndRedact patterns config text).1.length = 0) :
    (detectAndRedact patterns config text).2 = text := by
  rcases h with hoff | hnone
  · exact detectAndRedact_unchanged (.inl hoff)
  · have hempty : (selected patterns config text.toList).map (·.finding) = [] := List.eq_nil_of_length_eq_zero hnone
    rw [detectAndRedact_text, List.map_eq_nil_iff.mp hempty, List.isEmpty_nil, Bool.not_true, Bool.and_false]
    rfl

mutual

theorem walk_of_clean (path : List String) : ∀ value : Value,
    (config.redact = false ∨ (walk patterns config path value).count = 0) →
      (walk patterns config path value).redacted = value
  | .string text, h => by
    rw [walk] at h ⊢
    by_cases heligible : config.Eligible path
    · rw [if_pos heligible] at h ⊢
      exact congrArg Value.string (detectAndRedact_of_clean h)
    · rw [if_neg heligible]
      rfl
  | .array items, h => by
    rw [walk] at h ⊢
    exact congrArg Value.array (walkItems_of_clean path items h)
  | .object entries, h => by
    rw [walk] at h ⊢
    exact congrArg Value.object (walkEntries_of_clean path entries h)
  | .null, _ => by rw [walk] <;> simp [cleanReport]
  | .bool _, _ => by rw [walk] <;> simp [cleanReport]
  | .number _, _ => by rw [walk] <;> simp [cleanReport]

theorem walkItems_of_clean (path : List String) : ∀ items : List Value,
    (config.redact = false ∨ ((walkItems patterns config path items).map (·.count)).sum = 0) →
      (walkItems patterns config path items).map (·.redacted) = items
  | [], _ => rfl
  | item :: items, h => by
    rw [walkItems, List.map_cons, List.sum_cons, Nat.add_eq_zero_iff] at h
    rw [walkItems, List.map_cons, walk_of_clean path item (h.imp_right And.left),
      walkItems_of_clean path items (h.imp_right And.right)]

theorem walkEntries_of_clean (path : List String) : ∀ entries : List (String × Value),
    (config.redact = false ∨ ((walkEntries patterns config path entries).map (·.2.count)).sum = 0) →
      (walkEntries patterns config path entries).map (fun entry => (entry.1, entry.2.redacted)) = entries
  | [], _ => rfl
  | (key, value) :: entries, h => by
    rw [walkEntries, List.map_cons, List.sum_cons, Nat.add_eq_zero_iff] at h
    rw [walkEntries, List.map_cons, walk_of_clean (path ++ [key]) value (h.imp_right And.left),
      walkEntries_of_clean path entries (h.imp_right And.right)]

end

theorem scanJsonValue_of_clean {value : Value}
    (h : config.redact = false ∨ (scanJsonValue patterns config value).count = 0) :
    (scanJsonValue patterns config value).redacted = value := by
  rw [scanJsonValue_eq] at h ⊢
  cases value with
  | string text => exact congrArg Value.string (detectAndRedact_of_clean h)
  | _ => exact walk_of_clean [] _ h

/-- Arguments stay an object, with the same keys. -/
theorem redactedArguments_eq (arguments : JsonObject) :
    (scanJsonValue patterns config (.object arguments)).redacted =
      .object (redactedArguments patterns config arguments) := by
  have hshape : Redacts patterns config [] (.object arguments)
      (scanJsonValue patterns config (.object arguments)).redacted := by
    rw [scanJsonValue_eq]
    exact rootRedacts_referenceScan patterns config (.object arguments)
  unfold redactedArguments
  generalize (scanJsonValue patterns config (.object arguments)).redacted = redacted at hshape ⊢
  cases hshape with
  | object => rfl

theorem redactedArguments_nil : redactedArguments patterns config [] = [] := by
  have h : (scanJsonValue patterns config (.object [])).redacted = .object [] := by
    rw [scanJsonValue_eq]
    rfl
  rw [redactedArguments_eq] at h
  exact Value.object.inj h

/-! ## One part -/

theorem not_redacted_iff (count : Nat) :
    (config.redact && decide (count > 0)) = false ↔ config.redact = false ∨ count = 0 := by
  rw [Bool.and_eq_false_iff, decide_eq_false_iff_not, gt_iff_lt, Nat.not_lt, Nat.le_zero]

theorem scanArguments_eq (arguments : JsonObject) :
    (scanArguments patterns config arguments).2 = redactedArguments patterns config arguments := by
  unfold scanArguments
  dsimp only
  rw [redactedArguments_eq]
  rcases hredacted : config.redact && decide ((scanJsonValue patterns config (.object arguments)).count > 0) with _ | _
  · have hclean := scanJsonValue_of_clean ((not_redacted_iff _).mp hredacted)
    rw [redactedArguments_eq] at hclean
    exact (Value.object.inj hclean).symm
  · rfl

theorem scanPart_eq (handler : StageHandler) (part : ContentPart) :
    (handler.scanPart patterns part).2 = redactedPart patterns handler.config handler.stage part := by
  obtain ⟨config, stage⟩ := handler
  unfold StageHandler.scanPart
  cases stage with
  | promptPreFetch =>
    cases part with
    | promptRequest content =>
      exact congrArg (fun arguments => ContentPart.promptRequest { content with arguments }) (scanArguments_eq _)
    | _ => rfl
  | toolPreInvoke =>
    cases part with
    | toolCall content =>
      exact congrArg (fun arguments => ContentPart.toolCall { content with arguments }) (scanArguments_eq _)
    | _ => rfl
  | toolPostInvoke =>
    cases part with
    | toolResult content =>
      simp only [scanContentPart, Option.getD_some, redactedPart]
      split
      · rfl
      · rename_i hredacted
        rw [scanJsonValue_of_clean ((not_redacted_iff _).mp (Bool.eq_false_of_not_eq_true hredacted))]
    | _ => rfl
  | resourcePostFetch =>
    cases part with
    | resource content =>
      obtain ⟨resourceRequestId, uri, name, description, resourceType, content, blob, mimeType⟩ := content
      cases content with
      | none => rfl
      | some text =>
        simp only [scanContentPart, redactedPart, Option.bind_eq_bind, Option.bind_some, Option.pure_def,
          Option.getD_some, Option.map_some]
        rcases hredacted : config.redact && decide ((scanDirectText patterns config text).count > 0) with _ | _
        · rw [detectAndRedact_of_clean ((not_redacted_iff _).mp hredacted)]
        · rfl
    | _ => rfl

/-- A part whose report says that nothing was redacted stays. -/
theorem redactedPart_of_not_redacted {handler : StageHandler} {part : ContentPart}
    (h : (handler.config.redact && (handler.scanPart patterns part).1.redacted) = false) :
    redactedPart patterns handler.config handler.stage part = part := by
  obtain ⟨config, stage⟩ := handler
  have harguments : ∀ {arguments : JsonObject},
      (config.redact && (scanArguments patterns config arguments).1.redacted) = false →
        redactedArguments patterns config arguments = arguments := by
    intro arguments hclean
    have hnone : config.redact = false ∨ (scanJsonValue patterns config (.object arguments)).count = 0 := by
      rcases Bool.and_eq_false_iff.mp hclean with hoff | hnone
      · exact .inl hoff
      · exact (not_redacted_iff _).mp hnone
    exact Value.object.inj ((redactedArguments_eq arguments).symm.trans (scanJsonValue_of_clean hnone))
  cases stage with
  | promptPreFetch =>
    cases part with
    | promptRequest content =>
      exact congrArg (fun arguments => ContentPart.promptRequest { content with arguments }) (harguments h)
    | _ => rfl
  | toolPreInvoke =>
    cases part with
    | toolCall content =>
      exact congrArg (fun arguments => ContentPart.toolCall { content with arguments }) (harguments h)
    | _ => rfl
  | toolPostInvoke =>
    cases part with
    | toolResult content =>
      have hclean : config.redact = false ∨ (scanJsonValue patterns config content.content).count = 0 := by
        rcases Bool.and_eq_false_iff.mp h with hoff | hnone
        · exact .inl hoff
        · exact (not_redacted_iff _).mp hnone
      exact congrArg (fun value => ContentPart.toolResult { content with content := value })
        (scanJsonValue_of_clean hclean)
    | _ => rfl
  | resourcePostFetch =>
    cases part with
    | resource content =>
      obtain ⟨resourceRequestId, uri, name, description, resourceType, content, blob, mimeType⟩ := content
      cases content with
      | none => rfl
      | some text =>
        have hclean : config.redact = false ∨ (detectAndRedact patterns config text).1.length = 0 := by
          rcases Bool.and_eq_false_iff.mp h with hoff | hnone
          · exact .inl hoff
          · exact (not_redacted_iff _).mp hnone
        simp only [redactedPart, Option.map_some, detectAndRedact_of_clean hclean]
    | _ => rfl

/-! ## The whole payload -/

theorem scanPayload_final (handler : StageHandler) (payload : MessagePayload) :
    (handler.scanPayload patterns payload).modifiedPayload.getD payload =
      redactedPayload patterns handler.config handler.stage payload := by
  obtain ⟨⟨schemaVersion, role, content, channel⟩⟩ := payload
  have hparts : (content.map (handler.scanPart patterns)).map (·.2) =
      content.map (redactedPart patterns handler.config handler.stage) := by
    rw [List.map_map]
    exact List.map_congr_left fun part _ => scanPart_eq handler part
  unfold StageHandler.scanPayload redactedPayload
  dsimp only
  split
  · rw [Option.getD_some, hparts]
  · rename_i hany
    have hsame : content.map (redactedPart patterns handler.config handler.stage) = content := by
      refine (List.map_congr_left fun part hpart => ?_).trans (List.map_id _)
      have hnone := List.any_eq_false.mp (Bool.eq_false_of_not_eq_true hany) _ (List.mem_map_of_mem hpart)
      exact redactedPart_of_not_redacted (Bool.eq_false_of_not_eq_true hnone)
    rw [hsame]
    rfl

theorem modifiedPayload_attachMetrics (result : PluginResult) (extensions : Extensions) (count : Nat)
    (findings : List Finding) (outcome : DetectionOutcome) :
    (attachMetrics result extensions count findings outcome).modifiedPayload = result.modifiedPayload := by
  unfold attachMetrics
  split <;> rfl

/-- A payload that is let pass goes on redacted. -/
theorem handle_final {handler : StageHandler} {payload : MessagePayload} {extensions : Extensions}
    (h : (handler.handle patterns payload extensions).denied = false) :
    (handler.handle patterns payload extensions).modifiedPayload.getD payload =
      redactedPayload patterns handler.config handler.stage payload := by
  rw [denied_handle] at h
  rw [← scanPayload_final]
  unfold StageHandler.handle
  dsimp only
  rw [h, if_neg Bool.false_ne_true]
  rcases (handler.scanPayload patterns payload).modifiedPayload with _ | modifiedPayload
  · dsimp only
    split
    · rw [modifiedPayload_attachMetrics]
    · rfl
  · dsimp only
    rw [modifiedPayload_attachMetrics]

/-- The findings in a payload whose only part is of the stage's kind are those of the part. -/
theorem count_scanPayload_singleton (handler : StageHandler) (role : Role) (part : ContentPart) :
    (handler.scanPayload patterns (messagePayload role [part])).count = (handler.scanPart patterns part).1.count :=
  Nat.add_zero _

end Verdict

end DataPlane.Secrets
