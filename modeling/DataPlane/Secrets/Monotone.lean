/-
More detectors, and what becomes of a denial. Every span reported with fewer detectors lies in one
reported with more, so findings are lost only where a new find joins two old ones: with a threshold
of at most one finding, or without such a join, a denied payload stays denied.
-/
import DataPlane.Secrets.Plugin
import DataPlane.Secrets.Redaction

namespace DataPlane.Secrets

open DataPlane.Json DataPlane.Cpex

/-! ## Reported spans -/

section Text

variable (patterns : Patterns) {config config' : SecretsDetectionConfig}

theorem collectCandidates_subset (hmore : ∀ name, config.isEnabled name = true → config'.isEnabled name = true)
    (text : List Char) : collectCandidates patterns config text ⊆ collectCandidates patterns config' text := by
  intro candidate h
  obtain ⟨name, hn, hc⟩ := List.mem_flatMap.mp h
  refine List.mem_flatMap.mpr ⟨name, hn, ?_⟩
  split at hc
  · rename_i he; rw [if_pos (hmore name he)]; exact hc
  · cases hc

/-- With more detectors, every span that was reported lies in a reported one. -/
theorem selected_inside (hmore : ∀ name, config.isEnabled name = true → config'.isEnabled name = true)
    (text : List Char) : ∀ s ∈ (selected patterns config text).map (·.span),
      ∃ t ∈ (selected patterns config' text).map (·.span), s.Inside t := by
  unfold selected
  rw [spans_select, spans_select]
  refine Span.merge_mono (sorted_sortCandidates _) (sorted_sortCandidates _) ?_
  apply List.map_subset
  intro candidate h
  rw [sortCandidates, List.mem_insertionSort] at h ⊢
  exact collectCandidates_subset patterns hmore text h

/-- No span reported under the second config holds two that are reported under the first. -/
def Unfused (patterns : Patterns) (config config' : SecretsDetectionConfig) (text : List Char) : Prop :=
  ∀ t ∈ selected patterns config' text,
    ((selected patterns config text).filter fun s => s.span.Inside t.span).length ≤ 1

theorem length_selected_le (hmore : ∀ name, config.isEnabled name = true → config'.isEnabled name = true)
    {text : List Char} (hunfused : Unfused patterns config config' text) :
    (selected patterns config text).length ≤ (selected patterns config' text).length := by
  have hone : ∀ t ∈ (selected patterns config' text).map (·.span),
      (((selected patterns config text).map (·.span)).filter fun s => s.Inside t).length ≤ 1 := by
    intro t ht
    obtain ⟨c, hc, rfl⟩ := List.mem_map.mp ht
    rw [List.filter_map, List.length_map]
    exact hunfused c hc
  have h := Span.length_le_of_inside (selected_inside patterns hmore text) hone
  rwa [List.length_map, List.length_map] at h

theorem length_selected_pos (hmore : ∀ name, config.isEnabled name = true → config'.isEnabled name = true)
    {text : List Char} (h : 0 < (selected patterns config text).length) :
    0 < (selected patterns config' text).length := by
  obtain ⟨s, hs⟩ := List.exists_mem_of_length_pos h
  obtain ⟨t, ht, -⟩ := selected_inside patterns hmore text s.span (List.mem_map_of_mem hs)
  obtain ⟨t, ht, -⟩ := List.mem_map.mp ht
  exact List.length_pos_of_mem ht

end Text

/-! ## Findings as a sum over texts -/

section Walk

variable (config : SecretsDetectionConfig)

mutual

/-- The texts that are scanned in a JSON value. -/
def scannedTexts (path : List String) (directScalarRoot : Bool) : Value → List String
  | .string text => if config.shouldScanFieldPath path directScalarRoot then [text] else []
  | .array items => if config.shouldTraverseFieldPath path then scannedItems path items else []
  | .object entries => if config.shouldTraverseFieldPath path then scannedEntries path entries else []
  | _ => []

def scannedItems (path : List String) : List Value → List String
  | [] => []
  | item :: items => scannedTexts path false item ++ scannedItems path items

def scannedEntries (path : List String) : List (String × Value) → List String
  | [] => []
  | (key, value) :: entries => scannedTexts (path ++ [key]) false value ++ scannedEntries path entries

end

/-- The texts that are scanned in a content part at a stage. -/
def partTexts : Stage → ContentPart → List String
  | .promptPreFetch, .promptRequest content => scannedTexts config [] true (.object content.arguments)
  | .toolPreInvoke, .toolCall content => scannedTexts config [] true (.object content.arguments)
  | .toolPostInvoke, .toolResult content => scannedTexts config [] true content.content
  | .resourcePostFetch, .resource content => content.content.toList
  | _, _ => []

/-- The texts that are scanned in a payload at a stage. -/
def payloadTexts (stage : Stage) (payload : MessagePayload) : List String :=
  payload.message.content.flatMap (partTexts config stage)

/-- The number of findings in a list of texts. -/
def countTexts (patterns : Patterns) (config : SecretsDetectionConfig) (texts : List String) : Nat :=
  (texts.map fun text => (selected patterns config text.toList).length).sum

theorem countTexts_append (patterns : Patterns) (texts texts' : List String) :
    countTexts patterns config (texts ++ texts') = countTexts patterns config texts + countTexts patterns config texts' := by
  unfold countTexts
  rw [List.map_append, List.sum_append]

theorem count_scanDirectText (patterns : Patterns) (text : String) :
    (scanDirectText patterns config text).count = countTexts patterns config [text] := by
  simp [scanDirectText, detectAndRedact, countTexts]

variable (patterns : Patterns) (enabled : List (String × Bool))

-- which texts are scanned does not depend on the enabled patterns
mutual

theorem count_scanJsonValueInner (path : List String) (directScalarRoot : Bool) : ∀ value : Value,
    (scanJsonValueInner patterns { config with enabled } path directScalarRoot value).count =
      countTexts patterns { config with enabled } (scannedTexts config path directScalarRoot value)
  | .string text => by
    unfold scanJsonValueInner scannedTexts
    show (if config.shouldScanFieldPath path directScalarRoot then _ else _ : ScanReport).count = _
    split
    · exact count_scanDirectText _ patterns text
    · rfl
  | .array items => by
    unfold scanJsonValueInner scannedTexts
    show (if config.shouldTraverseFieldPath path then _ else _ : ScanReport).count = _
    split
    · exact count_scanItems path items
    · rfl
  | .object entries => by
    unfold scanJsonValueInner scannedTexts
    show (if config.shouldTraverseFieldPath path then _ else _ : ScanReport).count = _
    split
    · exact count_scanEntries path entries
    · rfl
  | .null => rfl
  | .bool _ => rfl
  | .number _ => rfl

theorem count_scanItems (path : List String) : ∀ items : List Value,
    ((scanItems patterns { config with enabled } path items).map (·.count)).sum =
      countTexts patterns { config with enabled } (scannedItems config path items)
  | [] => rfl
  | item :: items => by
    unfold scanItems scannedItems
    rw [List.map_cons, List.sum_cons, countTexts_append, count_scanJsonValueInner path false item,
      count_scanItems path items]

theorem count_scanEntries (path : List String) : ∀ entries : List (String × Value),
    ((scanEntries patterns { config with enabled } path entries).map (·.2.count)).sum =
      countTexts patterns { config with enabled } (scannedEntries config path entries)
  | [] => rfl
  | (key, value) :: entries => by
    unfold scanEntries scannedEntries
    rw [List.map_cons, List.sum_cons, countTexts_append, count_scanJsonValueInner (path ++ [key]) false value,
      count_scanEntries path entries]

end

theorem count_scanPart (stage : Stage) (part : ContentPart) :
    (StageHandler.scanPart patterns ⟨{ config with enabled }, stage⟩ part).1.count =
      countTexts patterns { config with enabled } (partTexts config stage part) := by
  have hjson := count_scanJsonValueInner config patterns enabled [] true
  unfold StageHandler.scanPart
  cases stage with
  | promptPreFetch =>
    cases part with
    | promptRequest content => exact hjson (.object content.arguments)
    | _ => rfl
  | toolPreInvoke =>
    cases part with
    | toolCall content => exact hjson (.object content.arguments)
    | _ => rfl
  | toolPostInvoke =>
    cases part with
    | toolResult content => exact hjson content.content
    | _ => rfl
  | resourcePostFetch =>
    cases part with
    | resource content =>
      simp only [scanContentPart, partTexts]
      cases content.content with
      | none => rfl
      | some text => exact count_scanDirectText _ patterns text
    | _ => rfl

theorem count_scanPayload (stage : Stage) (payload : MessagePayload) :
    (StageHandler.scanPayload patterns ⟨{ config with enabled }, stage⟩ payload).count =
      countTexts patterns { config with enabled } (payloadTexts config stage payload) := by
  unfold StageHandler.scanPayload payloadTexts
  simp only [List.map_map]
  induction payload.message.content with
  | nil => rfl
  | cons part parts ih =>
    rw [List.map_cons, List.sum_cons, List.flatMap_cons, countTexts_append, ih]
    exact congrArg (· + _) (count_scanPart config patterns enabled stage part)

end Walk

/-! ## Denials -/

section Payload

variable (patterns : Patterns) {config config' : SecretsDetectionConfig}

theorem countTexts_le (hmore : ∀ name, config.isEnabled name = true → config'.isEnabled name = true)
    {texts : List String} (h : ∀ text ∈ texts, Unfused patterns config config' text.toList) :
    countTexts patterns config texts ≤ countTexts patterns config' texts := by
  unfold countTexts
  apply List.sum_le_sum
  intro text ht
  exact length_selected_le patterns hmore (h text ht)

theorem countTexts_pos (hmore : ∀ name, config.isEnabled name = true → config'.isEnabled name = true)
    {texts : List String} (h : 0 < countTexts patterns config texts) : 0 < countTexts patterns config' texts := by
  unfold countTexts at h ⊢
  obtain ⟨n, hn, hpos⟩ : ∃ n ∈ texts.map fun text => (selected patterns config text.toList).length, 0 < n := by
    by_contra hno
    have hzero := List.sum_eq_zero fun n hn => Nat.eq_zero_of_not_pos fun hpos => hno ⟨n, hn, hpos⟩
    omega
  obtain ⟨text, ht, rfl⟩ := List.mem_map.mp hn
  have hle := List.single_le_sum (fun _ _ => Nat.zero_le _) _
    (List.mem_map_of_mem (f := fun text : String => (selected patterns config' text.toList).length) ht)
  exact (length_selected_pos patterns hmore hpos).trans_le hle

end Payload

/-- A denied payload stays denied when more detectors are enabled, if one finding is enough to block, or
if in none of the scanned texts a reported span joins two that were reported before. -/
theorem handle_denied_of_enabled (patterns : Patterns) (config : SecretsDetectionConfig)
    (enabled : List (String × Bool))
    (hmore : ∀ name, config.isEnabled name = true →
      ({ config with enabled } : SecretsDetectionConfig).isEnabled name = true)
    (stage : Stage) (payload : MessagePayload) (extensions : Extensions)
    (hjoin : config.minFindingsToBlock ≤ 1 ∨
      ∀ text ∈ payloadTexts config stage payload, Unfused patterns config { config with enabled } text.toList)
    (hdenied : (StageHandler.handle patterns ⟨config, stage⟩ payload extensions).denied = true) :
    (StageHandler.handle patterns ⟨{ config with enabled }, stage⟩ payload extensions).denied = true := by
  have hcount : (StageHandler.scanPayload patterns ⟨config, stage⟩ payload).count =
      countTexts patterns config (payloadTexts config stage payload) :=
    count_scanPayload config patterns config.enabled stage payload
  rw [denied_handle, shouldBlock, Bool.and_eq_true, decide_eq_true_eq] at hdenied ⊢
  obtain ⟨hblock, hmin⟩ := hdenied
  refine ⟨hblock, ?_⟩
  rw [hcount] at hmin
  rw [count_scanPayload config patterns enabled]
  change config.minFindingsToBlock ≤ _ at hmin ⊢
  rcases hjoin with hone | hunfused
  · -- a threshold of zero is always met, and one finding is never lost
    by_cases hzero : config.minFindingsToBlock = 0
    · rw [hzero]; exact Nat.zero_le _
    · have hpos : 0 < countTexts patterns config (payloadTexts config stage payload) := by omega
      have hpos' := countTexts_pos patterns hmore hpos
      omega
  · exact hmin.trans (countTexts_le patterns hmore hunfused)

/-- The defaults, with two findings to block. -/
def thresholdTwo : SecretsDetectionConfig := { SecretsDetectionConfig.default with minFindingsToBlock := 2 }

/-- The defaults and `base64_24`. -/
def base64Too : List (String × Bool) := ("base64_24", true) :: defaultEnabledMap

/-- A tool call with one argument for each text. -/
def toolCallOf (texts : List String) : MessagePayload :=
  messagePayload .assistant [.toolCall ⟨"call", "tool", texts.map fun text => (text, .string text), none⟩]

theorem base64Too_enables (name : PatternName) (h : thresholdTwo.isEnabled name = true) :
    ({ thresholdTwo with enabled := base64Too } : SecretsDetectionConfig).isEnabled name = true := by
  cases name <;> first | rfl | exact h

/-- Two access keys in two arguments. -/
theorem handle_denied_of_enabled_base64 :
    (StageHandler.handle (.compiled fun _ => false) ⟨{ thresholdTwo with enabled := base64Too }, .toolPreInvoke⟩
      (toolCallOf ["AKIAFAKE12345EXAMPLE", "id AKIAFAKE54321EXAMPLE"]) ⟨none⟩).denied = true := by
  apply handle_denied_of_enabled (.compiled fun _ => false) thresholdTwo base64Too base64Too_enables
  · refine .inr ?_
    unfold Unfused
    decide +kernel
  · decide +kernel

/-- Two access keys with a slash between them are one Base64 text: two findings become one. -/
theorem handle_joins_findings :
    (∀ name, thresholdTwo.isEnabled name = true →
      ({ thresholdTwo with enabled := base64Too } : SecretsDetectionConfig).isEnabled name = true) ∧
    (StageHandler.handle (.compiled fun _ => false) ⟨thresholdTwo, .toolPreInvoke⟩
      (toolCallOf ["AKIAFAKE12345EXAMPLE/AKIAFAKE54321EXAMPLE"]) ⟨none⟩).denied = true ∧
    (StageHandler.handle (.compiled fun _ => false) ⟨{ thresholdTwo with enabled := base64Too }, .toolPreInvoke⟩
      (toolCallOf ["AKIAFAKE12345EXAMPLE/AKIAFAKE54321EXAMPLE"]) ⟨none⟩).denied = false := by
  refine ⟨base64Too_enables, ?_, ?_⟩
  · decide +kernel
  · decide +kernel

end DataPlane.Secrets
