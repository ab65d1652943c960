/-
`validate_tool_params`: the `Mcp-Param-*` headers of a tool call against its arguments. The
module states what a header says about a parameter and proves the validator exact: it accepts
exactly when every annotated parameter and its header agree, it reads no other header, and so two
argument objects accepted with the same headers agree at every annotated path.
-/
import DataPlane.Headers.Integer
import DataPlane.Headers.Schema

namespace DataPlane.Headers

open DataPlane.Json

/-! ## The validator -/

/-- An `http::HeaderValue`: visible bytes, blanks and tabs. -/
structure HeaderValue where
  bytes : List UInt8
  visible : ∀ b ∈ bytes, b = 9 ∨ (32 ≤ b ∧ b ≠ 127)

/-- An `http::HeaderMap`: every occurrence of every (lower-case) name, in order. -/
structure HeaderMap where
  entries : List (String × HeaderValue)

/-- `HeaderMap::get_all`. -/
def HeaderMap.getAll (headers : HeaderMap) (name : String) : List HeaderValue :=
  headers.entries.filterMap fun (n, v) => if n = name then some v else none

/-- `str::from_utf8`. -/
def fromUtf8 (bytes : List UInt8) : Option String := String.fromUTF8? ⟨bytes.toArray⟩

/-- `BASE64_HEADER_PREFIX` and `BASE64_HEADER_SUFFIX`. -/
def base64HeaderPrefix : List Char := "=?base64?".toList
def base64HeaderSuffix : List Char := "?=".toList

/-- `str::strip_prefix`. -/
def stripPrefix : List Char → List Char → Option (List Char)
  | [], s => some s
  | p :: ps, c :: cs => if p = c then stripPrefix ps cs else none
  | _ :: _, [] => none

/-- `str::strip_suffix`. -/
def stripSuffix (suffix s : List Char) : Option (List Char) :=
  (stripPrefix suffix.reverse s.reverse).map List.reverse

def isBlank (b : UInt8) : Bool := b == 32 || b == 9

/-- The bytes a plain value may hold. -/
def isPlainByte (b : UInt8) : Bool := b == 9 || (32 ≤ b && b ≤ 126)

inductive ParameterValue where
  | boolean (b : Bool)
  | integer (n : Int)
  | string (s : String)
  deriving DecidableEq

def ParameterValue.display : ParameterValue → String
  | .boolean b => if b then "true" else "false"
  | .integer n => String.ofList (intText n)
  | .string s => s

def valueAtRest (value : Value) : List String → Option Value
  | [] => some value
  | property :: rest => do valueAtRest (← (← value.asObject).get? property) rest

def valueAtPropertyPath (arguments : Option JsonObject) : List String → Option Value
  | [] => none
  | first :: rest => do valueAtRest (← (← arguments).get? first) rest

/-- `as_i64`, then `as_u64`, then the printed number, kept if it is safe. -/
def safeIntegerOf (n : Number) : Option Int :=
  (n.asI64 <|> (n.asU64.bind fun k => checkedI64 k) <|> parseIntegerHeaderValue n.text).filter fun k => decide (Safe k)

def integerError (path : String) : String :=
  s!"body value for `{path}` must be an integer between -9007199254740991 and 9007199254740991"

def parameterValue (value : Value) (parameterType : ParameterType) (path : String) : Except String ParameterValue :=
  match parameterType, value with
  | .boolean, .bool b => .ok (.boolean b)
  | .integer, .number n =>
    match safeIntegerOf n with
    | some k => .ok (.integer k)
    | none => .error (integerError path)
  | .string, .string s => .ok (.string s)
  | .boolean, _ => .error s!"body value for `{path}` must be a boolean"
  | .integer, _ => .error (integerError path)
  | .string, _ => .error s!"body value for `{path}` must be a string"

def parameterValuesMatch (headerValue : String) : ParameterValue → Bool
  | .boolean b => headerValue == if b then "true" else "false"
  | .integer n => parseIntegerHeaderValue headerValue.toList == some n
  | .string s => headerValue == s

section
variable (codecs : Codecs)

def decodeHeaderValue (value : HeaderValue) : Except String String :=
  match fromUtf8 value.bytes with
  | none => .error "value is not ASCII or UTF-8"
  | some raw =>
    match (stripPrefix base64HeaderPrefix raw.toList).bind (stripSuffix base64HeaderSuffix) with
    | some inner =>
      match codecs.base64Decode inner with
      | none => .error "sentinel contains invalid Base64"
      | some decoded =>
        match fromUtf8 decoded with
        | none => .error "sentinel does not contain UTF-8"
        | some text => .ok text
    | none =>
      if value.bytes.head?.any isBlank || value.bytes.getLast?.any isBlank then
        .error "plain value has leading or trailing whitespace"
      else if value.bytes.any (!isPlainByte ·) then
        .error "plain value contains characters that require Base64 encoding"
      else .ok raw

/-- One occurrence of an annotated header against the body's value. -/
def checkOccurrence (display : String) (expected : ParameterValue) (raw : HeaderValue) : Except String Unit :=
  match decodeHeaderValue codecs raw with
  | .error reason => .error s!"{display} header is malformed: {reason}"
  | .ok decoded =>
    if parameterValuesMatch decoded expected then .ok ()
    else .error s!"{display} header `{decoded}` does not match body value `{expected.display}`"

/-- The body of the loop over the annotations. -/
def checkParam (headers : HeaderMap) (arguments : Option JsonObject) (a : ParamHeaderAnnotation) : Except String Unit :=
  let headerValues := headers.getAll a.headerName
  let bodyValue := (valueAtPropertyPath arguments a.propertyPath).filter (!·.isNull)
  let path := joinPath a.propertyPath
  match headerValues, bodyValue with
  | [], none => .ok ()
  | _ :: _, none => .error s!"unexpected {a.headerNameDisplay} header for absent or null `{path}`"
  | [], some _ => .error s!"missing {a.headerNameDisplay} header for `{path}`"
  | first :: rest, some value => do
    let expected ← parameterValue value a.parameterType path
    (first :: rest).forM (checkOccurrence codecs a.headerNameDisplay expected)

def validateToolParams (headers : HeaderMap) (arguments : Option JsonObject) (inputSchema : JsonObject) :
    Except String Unit := do
  (← paramHeaderAnnotations codecs inputSchema).forM (checkParam codecs headers arguments)

end

/-! ## What headers and bodies say -/

/-- `v` stands in `o` under a non-empty property path, every step but the last an object. -/
inductive ValueAt : JsonObject → List String → Value → Prop
  | leaf {o : JsonObject} {k : String} {v : Value} : o.get? k = some v → ValueAt o [k] v
  | nest {o o' : JsonObject} {k : String} {ks : List String} {v : Value} :
      o.get? k = some (.object o') → ValueAt o' ks v → ValueAt o (k :: ks) v

/-- The arguments hold the non-null value `v` at the path. -/
def Present (arguments : Option JsonObject) (path : List String) (v : Value) : Prop :=
  v ≠ .null ∧ ∃ o, arguments = some o ∧ ValueAt o path v

/-- A JSON value of a parameter type, and the parameter value it is: an integer is a number whose
decimal rendering denotes an integer of the safe range. -/
inductive HasType : ParameterType → Value → ParameterValue → Prop
  | boolean (b : Bool) : HasType .boolean (.bool b) (.boolean b)
  | integer {n : Number} {k : Int} : Decimal.Denotes n.text k → Safe k → HasType .integer (.number n) (.integer k)
  | string (s : String) : HasType .string (.string s) (.string s)

/-- A header value of sentinel shape, `=?base64?…?=` around `inner`. -/
def Sentinel (v : HeaderValue) (inner : List Char) : Prop :=
  ∃ raw, fromUtf8 v.bytes = some raw ∧ raw.toList = base64HeaderPrefix ++ inner ++ base64HeaderSuffix

/-- A plain header value: tabs and `0x20 … 0x7e`, no blank at either end. -/
structure Plain (v : HeaderValue) : Prop where
  bytes : ∀ b ∈ v.bytes, b = 9 ∨ (32 ≤ b ∧ b ≤ 126)
  first : ∀ b, v.bytes.head? = some b → b ≠ 32 ∧ b ≠ 9
  last : ∀ b, v.bytes.getLast? = some b → b ≠ 32 ∧ b ≠ 9

/-- The text a header value carries: that of its Base64 if it has sentinel shape, else its own. -/
def Carries (codecs : Codecs) (v : HeaderValue) (text : String) : Prop :=
  (∃ inner bytes, Sentinel v inner ∧ codecs.base64Decode inner = some bytes ∧ fromUtf8 bytes = some text) ∨
    ((∀ inner, ¬ Sentinel v inner) ∧ Plain v ∧ fromUtf8 v.bytes = some text)

/-- The text `s` stands for a parameter value, integers being read by `D`. -/
def Says (D : List Char → Int → Prop) (s : String) : ParameterValue → Prop
  | .boolean b => s = if b then "true" else "false"
  | .integer n => D s.toList n
  | .string t => s = t

/-- An annotated parameter and its header agree: both absent, or a value of the annotated type and
at least one occurrence of the header, every one of which says that value. -/
def Agrees (codecs : Codecs) (D : List Char → Int → Prop) (headers : HeaderMap) (arguments : Option JsonObject)
    (a : ParamHeaderAnnotation) : Prop :=
  ((∀ v, ¬ Present arguments a.propertyPath v) ∧ headers.getAll a.headerName = []) ∨
    ∃ v p, Present arguments a.propertyPath v ∧ HasType a.parameterType v p ∧ headers.getAll a.headerName ≠ [] ∧
      ∀ h ∈ headers.getAll a.headerName, ∃ s, Carries codecs h s ∧ Says D s p

/-- An integer text as the code reads it: a decimal numeral with machine-sized exponent. -/
def MachineDenotes (s : List Char) (n : Int) : Prop := Decimal.Denotes s n ∧ Admissible s

/-! ## Paths and numbers -/

theorem valueAtRest_eq_some {v w : Value} {path : List String} :
    valueAtRest v path = some w ↔ (path = [] ∧ v = w) ∨ ∃ o, v = .object o ∧ ValueAt o path w := by
  induction path generalizing v with
  | nil =>
    simp only [valueAtRest, Option.some.injEq, true_and]
    refine ⟨.inl, fun h => h.resolve_right ?_⟩
    rintro ⟨o, -, ⟨⟩⟩
  | cons k ks ih =>
    simp only [valueAtRest, bind, Option.bind_eq_some_iff, reduceCtorEq, false_and, false_or]
    constructor
    · rintro ⟨o, ho, x, hx, h⟩
      have hv : v = .object o := by cases v <;> simp_all [Value.asObject]
      refine ⟨o, hv, ?_⟩
      rcases ih.1 h with ⟨rfl, rfl⟩ | ⟨o', rfl, h'⟩
      · exact .leaf hx
      · exact .nest hx h'
    · rintro ⟨o, rfl, h⟩
      refine ⟨o, rfl, ?_⟩
      cases h with
      | leaf hx => exact ⟨w, hx, ih.2 (.inl ⟨rfl, rfl⟩)⟩
      | nest hx h' => exact ⟨_, hx, ih.2 (.inr ⟨_, rfl, h'⟩)⟩

theorem valueAtPropertyPath_eq_some {arguments : Option JsonObject} {path : List String} {v : Value} :
    valueAtPropertyPath arguments path = some v ↔ ∃ o, arguments = some o ∧ ValueAt o path v := by
  cases path with
  | nil =>
    simp only [valueAtPropertyPath, reduceCtorEq, false_iff]
    rintro ⟨o, -, ⟨⟩⟩
  | cons k ks =>
    simp only [valueAtPropertyPath, bind, Option.bind_eq_some_iff, valueAtRest_eq_some]
    constructor
    · rintro ⟨o, rfl, x, hx, ⟨rfl, rfl⟩ | ⟨o', rfl, h⟩⟩
      exacts [⟨o, rfl, .leaf hx⟩, ⟨o, rfl, .nest hx h⟩]
    · rintro ⟨o, rfl, h⟩
      refine ⟨o, rfl, ?_⟩
      cases h with
      | leaf hx => exact ⟨v, hx, .inl ⟨rfl, rfl⟩⟩
      | nest hx h' => exact ⟨_, hx, .inr ⟨_, rfl, h'⟩⟩

theorem isNull_eq_false {v : Value} : v.isNull = false ↔ v ≠ .null := by
  cases v <;> simp [Value.isNull]

/-- The value the loop looks at is the non-null value of the path. -/
theorem bodyValue_eq_some {arguments : Option JsonObject} {path : List String} {v : Value} :
    (valueAtPropertyPath arguments path).filter (!·.isNull) = some v ↔ Present arguments path v := by
  simp only [Option.filter_eq_some_iff, valueAtPropertyPath_eq_some, Bool.not_eq_true', isNull_eq_false, Present]
  exact and_comm

theorem bodyValue_eq_none {arguments : Option JsonObject} {path : List String} :
    (valueAtPropertyPath arguments path).filter (!·.isNull) = none ↔ ∀ v, ¬ Present arguments path v := by
  rw [Option.eq_none_iff_forall_ne_some]
  exact forall_congr' fun v => not_congr bodyValue_eq_some

/-- A path leads to one value. -/
theorem Present.unique {arguments : Option JsonObject} {path : List String} {v w : Value}
    (h : Present arguments path v) (h' : Present arguments path w) : v = w := by
  have := (bodyValue_eq_some.2 h).symm.trans (bodyValue_eq_some.2 h')
  exact Option.some.inj this

theorem admissible_of_reads {s : List Char} {m : Decimal.Numeral} (hr : Decimal.Reads s m)
    (he : InI64 m.exponent) (hs : InI64 m.scale) : Admissible s := fun _ hr' => hr.unique hr' ▸ ⟨he, hs⟩

theorem inI64_zero : InI64 0 := by decide

/-- What a JSON number prints is within the parser's machine range. -/
theorem number_admissible (n : Number) : Admissible n.text := by
  cases n with
  | posInt n => exact admissible_of_reads (reads_intText n.toNat) inI64_zero inI64_zero
  | negInt n _ => exact admissible_of_reads (reads_intText n) inI64_zero inI64_zero
  | float f =>
    have hf := f.fraction_short
    have he : -400 ≤ f.exponent.getD 0 ∧ f.exponent.getD 0 ≤ 400 := by
      cases h : f.exponent with
      | none => simp
      | some e => simpa using f.exponent_short e (by rw [h]; rfl)
    refine admissible_of_reads (reads_float f) ?_ ?_ <;>
      simp only [InI64, i64Min, i64Max, Float64.numeral, Decimal.Numeral.scale] <;> omega

/-- The integer of a JSON number, whichever of the three ways finds it. -/
theorem safeIntegerOf_eq_some {n : Number} {k : Int} :
    safeIntegerOf n = some k ↔ Decimal.Denotes n.text k ∧ Safe k := by
  have hparse : ∀ m : Int, Decimal.Denotes n.text m →
      ((some m).filter (fun k => decide (Safe k)) = some k ↔ Decimal.Denotes n.text k ∧ Safe k) := by
    intro m hm
    rw [Option.filter_eq_some_iff, Option.some.injEq, decide_eq_true_eq]
    constructor
    · rintro ⟨rfl, hs⟩; exact ⟨hm, hs⟩
    · rintro ⟨hk, hs⟩; exact ⟨hm.unique hk, hs⟩
  have htext : (parseIntegerHeaderValue n.text).filter (fun k => decide (Safe k)) = some k ↔
      Decimal.Denotes n.text k ∧ Safe k := by
    rw [Option.filter_eq_some_iff, parseIntegerHeaderValue_eq_some, decide_eq_true_eq]
    exact ⟨fun h => ⟨h.1.1, h.2⟩, fun h => ⟨⟨h.1, number_admissible n, h.2⟩, h.2⟩⟩
  unfold safeIntegerOf
  cases n with
  | posInt n =>
    by_cases h : n.toNat ≤ 9223372036854775807
    · rw [show (Number.posInt n).asI64 = some (n.toNat : Int) from if_pos h]
      exact hparse n.toNat (denotes_intText n.toNat)
    · have h1 : (Number.posInt n).asI64 = none := if_neg h
      have h2 : checkedI64 n.toNat = none := if_neg (by unfold InI64 i64Max; omega)
      rw [h1, show (Number.posInt n).asU64 = some n.toNat from rfl]
      simpa [h2] using htext
  | negInt n r => exact hparse n (denotes_intText n)
  | float f => exact htext

theorem parameterValue_eq_ok {v : Value} {ty : ParameterType} {path : String} {p : ParameterValue} :
    parameterValue v ty path = .ok p ↔ HasType ty v p := by
  constructor
  · intro h
    unfold parameterValue at h
    split at h <;> try cases h
    · exact .boolean _
    · split at h <;> cases h
      rename_i k hk
      obtain ⟨hd, hs⟩ := safeIntegerOf_eq_some.1 hk
      exact .integer hd hs
    · exact .string _
  · intro h
    cases h with
    | boolean b => rfl
    | integer hd hs => simp only [parameterValue, safeIntegerOf_eq_some.2 ⟨hd, hs⟩]
    | string s => rfl

/-! ## Header values -/

theorem stripPrefix_eq_some : ∀ {p s r : List Char}, stripPrefix p s = some r ↔ s = p ++ r
  | [], s, r => by simp [stripPrefix]
  | c :: p, [], r => by simp [stripPrefix]
  | c :: p, d :: s, r => by
    unfold stripPrefix
    split
    · rename_i h; subst h; rw [stripPrefix_eq_some]; simp
    · rename_i h; simp [Ne.symm h]

theorem stripSuffix_eq_some {p s r : List Char} : stripSuffix p s = some r ↔ s = r ++ p := by
  unfold stripSuffix
  simp only [Option.map_eq_some_iff, stripPrefix_eq_some]
  constructor
  · rintro ⟨a, h, rfl⟩
    have := congrArg List.reverse h
    simpa using this
  · rintro rfl
    exact ⟨r.reverse, by simp, by simp⟩

theorem sentinel_iff {v : HeaderValue} {raw : String} {inner : List Char} (h : fromUtf8 v.bytes = some raw) :
    (stripPrefix base64HeaderPrefix raw.toList).bind (stripSuffix base64HeaderSuffix) = some inner ↔
      Sentinel v inner := by
  rw [Option.bind_eq_some_iff]
  constructor
  · rintro ⟨a, h1, h2⟩
    rw [stripPrefix_eq_some] at h1
    rw [stripSuffix_eq_some] at h2
    exact ⟨raw, h, by rw [h1, h2, List.append_assoc]⟩
  · rintro ⟨raw', h', he⟩
    rw [h] at h'; cases h'
    rw [List.append_assoc] at he
    exact ⟨_, stripPrefix_eq_some.2 he, stripSuffix_eq_some.2 rfl⟩

theorem isPlainByte_iff {b : UInt8} : isPlainByte b = true ↔ b = 9 ∨ (32 ≤ b ∧ b ≤ 126) := by
  simp [isPlainByte]

theorem not_any_isBlank {o : Option UInt8} : o.any isBlank = false ↔ ∀ b, o = some b → b ≠ 32 ∧ b ≠ 9 := by
  cases o <;> simp [isBlank]

theorem plain_iff {v : HeaderValue} :
    Plain v ↔ (v.bytes.head?.any isBlank || v.bytes.getLast?.any isBlank) = false ∧
      v.bytes.any (!isPlainByte ·) = false := by
  rw [Bool.or_eq_false_iff, not_any_isBlank, not_any_isBlank, List.any_eq_false]
  simp only [Bool.not_eq_true', Bool.not_eq_false, isPlainByte_iff]
  exact ⟨fun h => ⟨⟨h.first, h.last⟩, h.bytes⟩, fun h => ⟨h.2, h.1.1, h.1.2⟩⟩

/-- `decode_header_value` returns exactly the text a value carries. -/
theorem decodeHeaderValue_eq_ok {codecs : Codecs} {v : HeaderValue} {s : String} :
    decodeHeaderValue codecs v = .ok s ↔ Carries codecs v s := by
  unfold decodeHeaderValue
  cases hraw : fromUtf8 v.bytes with
  | none =>
    simp only [reduceCtorEq, false_iff]
    rintro (⟨inner, b, ⟨raw, hr, -⟩, -⟩ | ⟨-, -, hr⟩) <;> rw [hraw] at hr <;> cases hr
  | some raw =>
    simp only
    split
    · rename_i inner hs
      have hsent := (sentinel_iff hraw).1 hs
      have hone : ∀ inner', Sentinel v inner' → inner' = inner := fun inner' h' =>
        Option.some.inj (((sentinel_iff hraw).2 h').symm.trans hs)
      constructor
      · intro h
        split at h
        · cases h
        · rename_i b hb
          split at h <;> cases h
          rename_i ht
          exact .inl ⟨inner, b, hsent, hb, ht⟩
      · rintro (⟨inner', b, h', hb, ht⟩ | ⟨hno, -⟩)
        · rw [hone inner' h'] at hb
          simp only [hb, ht]
        · exact absurd hsent (hno inner)
    · rename_i hs
      have hno : ∀ inner, ¬ Sentinel v inner := fun inner h' => by
        rw [(sentinel_iff hraw).2 h'] at hs; cases hs
      constructor
      · intro h
        split at h
        · cases h
        · rename_i hb
          split at h
          · cases h
          · rename_i hp
            cases h
            exact .inr ⟨hno, plain_iff.2 ⟨by simpa using hb, by simpa using hp⟩, hraw⟩
      · rintro (⟨inner, b, h', -⟩ | ⟨-, hpl, ht⟩)
        · exact absurd h' (hno inner)
        · obtain ⟨h1, h2⟩ := plain_iff.1 hpl
          rw [hraw] at ht; cases ht
          rw [h1, h2]; rfl

/-- A header value carries one text. -/
theorem Carries.unique {codecs : Codecs} {v : HeaderValue} {s t : String} (h : Carries codecs v s)
    (h' : Carries codecs v t) : s = t := by
  have := (decodeHeaderValue_eq_ok.2 h).symm.trans (decodeHeaderValue_eq_ok.2 h')
  cases this; rfl

theorem HasType.safe {ty : ParameterType} {v : Value} {k : Int} (h : HasType ty v (.integer k)) : Safe k := by
  cases h; assumption

/-- `parameter_values_match` for a value that a body can hold. -/
theorem parameterValuesMatch_iff {s : String} {ty : ParameterType} {v : Value} {p : ParameterValue}
    (hty : HasType ty v p) : parameterValuesMatch s p = true ↔ Says MachineDenotes s p := by
  cases p with
  | boolean b => simp [parameterValuesMatch, Says]
  | integer n =>
    simp only [parameterValuesMatch, beq_iff_eq, parseIntegerHeaderValue_eq_some, Says, MachineDenotes]
    exact ⟨fun h => ⟨h.1, h.2.1⟩, fun h => ⟨h.1, h.2, hty.safe⟩⟩
  | string t => simp [parameterValuesMatch, Says]

/-- A text says at most one value of a type. -/
theorem says_unique {s : String} {ty : ParameterType} {v w : Value} {p q : ParameterValue}
    (hv : HasType ty v p) (hw : HasType ty w q) (hp : Says MachineDenotes s p) (hq : Says MachineDenotes s q) : p = q := by
  cases hv <;> cases hw <;> simp only [Says] at hp hq
  · rename_i a b
    rw [hp] at hq
    cases a <;> cases b <;> first | rfl | exact absurd hq (by decide)
  · rw [hp.1.unique hq.1]
  · rw [← hp, ← hq]

/-! ## The validator is exact -/

theorem forM_eq_ok {α : Type} {f : α → Except String Unit} : ∀ {l : List α},
    l.forM f = .ok () ↔ ∀ a ∈ l, f a = .ok ()
  | [] => by simp [List.forM, pure, Except.pure]
  | a :: l => by
    rw [show (a :: l).forM f = (f a >>= fun _ => l.forM f) from rfl, except_bind_eq_ok, List.forall_mem_cons,
      ← forM_eq_ok]
    constructor
    · rintro ⟨⟨⟩, ha, hl⟩
      exact ⟨ha, hl⟩
    · rintro ⟨ha, hl⟩
      exact ⟨(), ha, hl⟩

theorem checkOccurrence_eq_ok {codecs : Codecs} {display : String} {ty : ParameterType} {v : Value}
    {p : ParameterValue} {h : HeaderValue} (hty : HasType ty v p) :
    checkOccurrence codecs display p h = .ok () ↔ ∃ s, Carries codecs h s ∧ Says MachineDenotes s p := by
  unfold checkOccurrence
  constructor
  · intro hc
    split at hc
    · cases hc
    · rename_i s hs
      split at hc
      · rename_i hm
        exact ⟨s, decodeHeaderValue_eq_ok.1 hs, (parameterValuesMatch_iff hty).1 hm⟩
      · cases hc
  · rintro ⟨s, hs, hsay⟩
    simp only [decodeHeaderValue_eq_ok.2 hs, (parameterValuesMatch_iff hty).2 hsay, if_true]

theorem checkParam_eq_ok {codecs : Codecs} {headers : HeaderMap} {arguments : Option JsonObject}
    {a : ParamHeaderAnnotation} :
    checkParam codecs headers arguments a = .ok () ↔ Agrees codecs MachineDenotes headers arguments a := by
  unfold checkParam Agrees
  cases hh : headers.getAll a.headerName with
  | nil =>
    cases hb : (valueAtPropertyPath arguments a.propertyPath).filter (!·.isNull) with
    | none => simpa using bodyValue_eq_none.1 hb
    | some v =>
      have hv := bodyValue_eq_some.1 hb
      simp only [reduceCtorEq, ne_eq, not_true_eq_false, false_and, and_false, exists_false, or_false, and_true,
        false_iff, not_forall, not_not]
      exact ⟨v, hv⟩
  | cons first rest =>
    cases hb : (valueAtPropertyPath arguments a.propertyPath).filter (!·.isNull) with
    | none =>
      have hno := bodyValue_eq_none.1 hb
      simp [hno]
    | some v =>
      have hv := bodyValue_eq_some.1 hb
      simp only [reduceCtorEq, and_false, false_or, ne_eq, not_false_eq_true, true_and]
      constructor
      · intro h
        obtain ⟨p, hp, h⟩ := except_bind_eq_ok.1 h
        have hty := parameterValue_eq_ok.1 hp
        exact ⟨v, p, hv, hty, fun x hx => (checkOccurrence_eq_ok hty).1 (forM_eq_ok.1 h x hx)⟩
      · rintro ⟨w, p, hw, hty, hall⟩
        cases hv.unique hw
        rw [parameterValue_eq_ok.2 hty]
        exact forM_eq_ok.2 fun x hx => (checkOccurrence_eq_ok hty).2 (hall x hx)

theorem validateToolParams_eq {codecs : Codecs} {schema : JsonObject} {annotations : List ParamHeaderAnnotation}
    (h : paramHeaderAnnotations codecs schema = .ok annotations) (headers : HeaderMap) (arguments : Option JsonObject) :
    validateToolParams codecs headers arguments schema =
      annotations.forM (checkParam codecs headers arguments) := by
  unfold validateToolParams; rw [h]; rfl

theorem validateToolParams_eq_ok {codecs : Codecs} {schema : JsonObject} {annotations : List ParamHeaderAnnotation}
    (h : paramHeaderAnnotations codecs schema = .ok annotations) {headers : HeaderMap} {arguments : Option JsonObject} :
    validateToolParams codecs headers arguments schema = .ok () ↔
      ∀ a ∈ annotations, Agrees codecs MachineDenotes headers arguments a := by
  rw [validateToolParams_eq h, forM_eq_ok]
  exact forall₂_congr fun a _ => checkParam_eq_ok

theorem forM_congr {α : Type} {f g : α → Except String Unit} : ∀ {l : List α}, (∀ a ∈ l, f a = g a) → l.forM f = l.forM g
  | [], _ => rfl
  | a :: l, h => by
    show (f a >>= fun _ => l.forM f) = (g a >>= fun _ => l.forM g)
    rw [h a (List.mem_cons_self ..), forM_congr fun b hb => h b (List.mem_cons_of_mem a hb)]

/-- Two bodies that agree with the same headers hold the same value at an annotated path. -/
theorem Agrees.bind {codecs : Codecs} {headers : HeaderMap} {arguments arguments' : Option JsonObject}
    {a : ParamHeaderAnnotation} (h : Agrees codecs MachineDenotes headers arguments a)
    (h' : Agrees codecs MachineDenotes headers arguments' a) :
    ((∀ v, ¬ Present arguments a.propertyPath v) ∧ ∀ v, ¬ Present arguments' a.propertyPath v) ∨
      ∃ v v' p, Present arguments a.propertyPath v ∧ HasType a.parameterType v p ∧
        Present arguments' a.propertyPath v' ∧ HasType a.parameterType v' p := by
  rcases h with ⟨hno, he⟩ | ⟨v, p, hv, hty, hne, hall⟩ <;> rcases h' with ⟨hno', he'⟩ | ⟨v', p', hv', hty', hne', hall'⟩
  · exact .inl ⟨hno, hno'⟩
  · exact absurd he hne'
  · exact absurd he' hne
  · obtain ⟨x, hx⟩ := List.exists_mem_of_ne_nil _ hne
    obtain ⟨s, hs, hsay⟩ := hall x hx
    obtain ⟨s', hs', hsay'⟩ := hall' x hx
    cases hs.unique hs'
    cases says_unique hty hty' hsay hsay'
    exact .inr ⟨v, v', p, hv, hty, hv', hty'⟩

/-- For a schema whose annotations are legal, the validator accepts exactly when every annotated
parameter agrees with its header (integer texts with `i64` exponents), its result depends on no
other header, and so the headers bind the body: two bodies accepted with the same headers agree,
as booleans, integers or strings, at every annotated path. -/
theorem validateToolParams_exact {codecs : Codecs} {schema : JsonObject} {annotations : List ParamHeaderAnnotation}
    (h : paramHeaderAnnotations codecs schema = .ok annotations) :
    (∀ headers arguments, validateToolParams codecs headers arguments schema = .ok () ↔
      ∀ a ∈ annotations, Agrees codecs MachineDenotes headers arguments a) ∧
    (∀ headers headers' arguments,
      (∀ a ∈ annotations, headers.getAll a.headerName = headers'.getAll a.headerName) →
      validateToolParams codecs headers arguments schema = validateToolParams codecs headers' arguments schema) ∧
    (∀ headers arguments arguments', validateToolParams codecs headers arguments schema = .ok () →
      validateToolParams codecs headers arguments' schema = .ok () →
      ∀ a ∈ annotations,
        ((∀ v, ¬ Present arguments a.propertyPath v) ∧ ∀ v, ¬ Present arguments' a.propertyPath v) ∨
          ∃ v v' p, Present arguments a.propertyPath v ∧ HasType a.parameterType v p ∧
            Present arguments' a.propertyPath v' ∧ HasType a.parameterType v' p) := by
  refine ⟨fun headers arguments => validateToolParams_eq_ok h, fun headers headers' arguments hsame => ?_,
    fun headers arguments arguments' h1 h2 a ha => ?_⟩
  · rw [validateToolParams_eq h, validateToolParams_eq h]
    refine forM_congr fun a ha => ?_
    unfold checkParam
    rw [hsame a ha]
  · exact ((validateToolParams_eq_ok h).1 h1 a ha).bind ((validateToolParams_eq_ok h).1 h2 a ha)

/-! ## One integer parameter -/

/-- A schema with one annotated integer, `count`. -/
def countSchema : JsonObject :=
  [("type", .string "object"),
   ("properties", .object [("count", .object [("type", .string "integer"), ("x-mcp-header", .string "Count")])])]

/-- Header names lower-cased, no Base64. -/
def plainCodecs : Codecs := ⟨fun s => some (toAsciiLowercase s), fun _ => none⟩

def countParam : ParamHeaderAnnotation := ⟨"mcp-param-count", "Mcp-Param-Count", .integer, ["count"]⟩

def countArguments (n : UInt64) : Option JsonObject := some [("count", .number (.posInt n))]

/-- The one header `Mcp-Param-Count: 4.2e1`. -/
def countHeaders : HeaderMap := ⟨[("mcp-param-count", ⟨[52, 46, 50, 101, 49], by decide +kernel⟩)]⟩

theorem validateToolParams_exact_count :
    paramHeaderAnnotations plainCodecs countSchema = .ok [countParam] ∧
      (validateToolParams plainCodecs countHeaders (countArguments 42) countSchema = .ok () ↔
        Agrees plainCodecs MachineDenotes countHeaders (countArguments 42) countParam) ∧
      validateToolParams plainCodecs countHeaders (countArguments 42) countSchema = .ok () := by
  have h : paramHeaderAnnotations plainCodecs countSchema = .ok [countParam] := by decide +kernel
  refine ⟨h, ?_, by decide +kernel⟩
  simpa using (validateToolParams_exact h).1 countHeaders (countArguments 42)

/-- The one header `Mcp-Param-Count: 0e9223372036854775808`. -/
def hugeExponentHeaders : HeaderMap :=
  ⟨[("mcp-param-count",
    ⟨[48, 101, 57, 50, 50, 51, 51, 55, 50, 48, 51, 54, 56, 53, 52, 55, 55, 53, 56, 48, 56], by decide +kernel⟩)]⟩

/-- A header whose exponent is no `i64` is refused, though its value is the body's. -/
theorem validateToolParams_huge_exponent :
    paramHeaderAnnotations plainCodecs countSchema = .ok [countParam] ∧
      Agrees plainCodecs Decimal.Denotes hugeExponentHeaders (countArguments 0) countParam ∧
      validateToolParams plainCodecs hugeExponentHeaders (countArguments 0) countSchema ≠ .ok () := by
  have hbody : Present (countArguments 0) ["count"] (.number (.posInt 0)) := ⟨nofun, _, rfl, .leaf rfl⟩
  have hzero : Decimal.Denotes "0e9223372036854775808".toList 0 := by
    refine ⟨⟨false, ['0'], [], 9223372036854775808⟩, ⟨by decide, by decide, by decide, [], _, rfl, .inr ⟨rfl, .inl rfl⟩,
      .inr ⟨'e', "9223372036854775808".toList, by decide +kernel, .inl rfl, _, by decide +kernel, by decide +kernel,
        .inr ⟨.inl rfl, by decide +kernel⟩⟩⟩, ?_⟩
    simp [Decimal.Numeral.value, Decimal.Numeral.digits, Decimal.val_cons]
  refine ⟨by decide +kernel, .inr ⟨_, .integer 0, hbody, .integer (denotes_intText 0) (by decide), by decide +kernel, ?_⟩,
    by decide +kernel⟩
  intro v hv
  refine ⟨"0e9223372036854775808", ?_, hzero⟩
  have : v ∈ hugeExponentHeaders.getAll "mcp-param-count" := hv
  simp only [HeaderMap.getAll, hugeExponentHeaders, List.filterMap_cons, if_true, List.filterMap_nil,
    List.mem_singleton] at this
  subst this
  exact decodeHeaderValue_eq_ok.1 (by decide +kernel)

end DataPlane.Headers
