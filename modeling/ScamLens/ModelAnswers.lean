import ScamLens.Heuristics
import ScamLens.JsonTexts

/-!
# Answers of the model

What `_parse_verdict` makes of the text a model returns. The fields of the
verdict are as the source builds them, so the imitated brand is any value of
the answer that passes a truth test. The text is read as a verdict whose fields
keep to their ranges exactly if it is an object with usable fields, or no JSON
at all and without a block in braces.
-/

namespace ScamLens.ModelAnswers

open BacktrackingRegex Heuristics JsonTexts PythonText

section Parse

/-- `re.sub` of an opening fence, of its language and of the space behind. -/
def openFence (s : Text) : Text :=
  let body := s.drop 3
  (if "json".toList.isPrefixOf body then body.drop 4 else body).dropWhile isSpace

/-- `re.sub` of a closing fence and of the space before it. The end of the
pattern matches before a final newline too. -/
def closeFence (s : Text) : Text :=
  let newline := s.getLast? == some '\n'
  let body := if newline then s.dropLast else s
  if "```".toList.isSuffixOf body then
    (body.take (body.length-3)).rdropWhile isSpace++if newline then ['\n'] else []
  else s

/-- The text `_parse_verdict` decodes. -/
def unfence (text : Text) : Text :=
  let cleaned := strip text
  if "```".toList.isPrefixOf cleaned then closeFence (openFence cleaned) else cleaned

/-- The pattern of a block: from the first opening brace to the last closing one. -/
def blockRe : Regex Char :=
  .seqs [literal ['\x7b'],.star fun _ => true,literal ['\x7d']]

/-- The exceptions of `_parse_verdict`. -/
inductive AnswerError where
  /-- What `json.loads` raises and nothing catches. -/
  | loads (error : LoadsError)
  /-- `AttributeError`: the value has no `get`. -/
  | attributeError
  /-- `OverflowError` of an infinite number. -/
  | overflowError
  /-- `TypeError`: the reasons cannot be gone through. -/
  | typeError
  deriving DecidableEq

/-- `ScanVerdict` as `_parse_verdict` fills it. -/
structure ParsedVerdict where
  /-- Severity. -/
  verdict : Text
  /-- Risk score. -/
  riskScore : ℤ
  /-- Confidence. -/
  confidence : ℤ
  /-- Reasons, most important first. -/
  reasons : List Text
  /-- Imitated brand, whatever value the model gave. -/
  mimicsBrand : Option JsonValue
  /-- Model that answered. -/
  model : Text

/-- `_clamp` -/
def clamp (value : JsonValue) : Except AnswerError ℤ :=
  match value.toInt with
  | .ok n => .ok (max 0 (min 100 n))
  | .error .valueError => .ok 0
  | .error .typeError => .ok 0
  | .error .overflowError => .error .overflowError

/-- The verdicts that `_parse_verdict` lets through. -/
def verdictTexts : List Text := ["safe","suspicious","scam"].map (·.toList)

/-- The verdict of a text that cannot be decoded. -/
def unparseable (model : Text) : ParsedVerdict where
  verdict := "suspicious".toList
  riskScore := 50
  confidence := 10
  reasons := ["model returned unparseable response".toList]
  mimicsBrand := none
  model := model

/-- `data.get(key, default)` -/
def field (fields : List (Text×JsonValue)) (key : String) (default : JsonValue) : JsonValue :=
  (fields.lookup key.toList).getD default

variable (r : PythonRepr) (model : Text)

/-- `str(data.get("verdict", "suspicious")).lower()`, suspicious if it is none
of the verdicts. -/
def verdictField (fields : List (Text×JsonValue)) : Text :=
  let verdict := lower ((field fields "verdict" (.string "suspicious".toList)).str r)
  if verdictTexts.contains verdict then verdict else "suspicious".toList

/-- `[str(r) for r in (data.get("reasons") or [])][:8]` -/
def reasonsField (fields : List (Text×JsonValue)) : Except AnswerError (List Text) :=
  let value := field fields "reasons" .null
  let value := if value.truthy then value else .array []
  value.iterate.elim (.error .typeError) fun items => .ok ((items.map (·.str r)).take 8)

/-- `data.get("mimics_brand") or None` -/
def mimicsField (fields : List (Text×JsonValue)) : Option JsonValue :=
  let value := field fields "mimics_brand" .null
  if value.truthy then some value else none

/-- The verdict that the fields of an answer make. -/
def fieldsVerdict (fields : List (Text×JsonValue)) : Except AnswerError ParsedVerdict := do
  let riskScore ← clamp (field fields "risk_score" (.int 0))
  let confidence ← clamp (field fields "confidence" (.int 0))
  let reasons ← reasonsField r fields
  return {
    verdict := verdictField r fields
    riskScore := riskScore
    confidence := confidence
    reasons := reasons
    mimicsBrand := mimicsField fields
    model := model }

/-- The verdict that a decoded answer makes. -/
def valueVerdict : JsonValue → Except AnswerError ParsedVerdict
  | .object fields => fieldsVerdict r model fields
  | _ => .error .attributeError

variable (loads : Text → Except LoadsError JsonValue)

/-- `_parse_verdict` -/
def parseVerdict (text : Text) : Except AnswerError ParsedVerdict :=
  let cleaned := unfence text
  match loads cleaned with
  | .ok data => valueVerdict r model data
  | .error .raised => .error (.loads .raised)
  | .error .decode =>
    match (blockRe.findAll cleaned).head? with
    | none => .ok (unparseable model)
    | some block =>
      match loads block with
      | .ok data => valueVerdict r model data
      | .error error => .error (.loads error)

end Parse

section Fields

/-- A verdict whose fields keep to their ranges. -/
structure WellFormed (v : ParsedVerdict) : Prop where
  /-- The verdict is one of the three. -/
  verdict : v.verdict∈verdictTexts
  /-- The risk score is a percentage. -/
  riskScore : 0 ≤ v.riskScore ∧ v.riskScore≤100
  /-- The confidence is a percentage. -/
  confidence : 0 ≤ v.confidence ∧ v.confidence≤100
  /-- There are at most eight reasons. -/
  reasons : v.reasons.length≤8
  /-- The imitated brand is a string, if there is one. -/
  mimicsBrand : ∀ value∈v.mimicsBrand, ∃ s, value=.string s

/-- A number that `_clamp` can take: every one but the infinite ones. -/
def Clampable (value : JsonValue) : Prop := ∀ negative, value≠.float (.infinite negative)

/-- A value that `or []` makes something to go through of. -/
def Iterable (value : JsonValue) : Prop := value.truthy=true → value.iterate.isSome=true

/-- A value that `or None` makes a string or nothing of. -/
def Nameable (value : JsonValue) : Prop := value.truthy=true → ∃ s, value=.string s

/-- An answer with fields that a verdict can be made of. -/
structure Usable (fields : List (Text×JsonValue)) : Prop where
  /-- The risk score is not infinite. -/
  riskScore : Clampable (field fields "risk_score" (.int 0))
  /-- The confidence is not infinite. -/
  confidence : Clampable (field fields "confidence" (.int 0))
  /-- The reasons are false, or a string, an array or an object. -/
  reasons : Iterable (field fields "reasons" .null)
  /-- The imitated brand is false or a string. -/
  mimicsBrand : Nameable (field fields "mimics_brand" .null)

variable {r : PythonRepr} {model : Text} {fields : List (Text×JsonValue)}

/-- `int` overflows on the infinite numbers alone. -/
theorem toInt_overflow_iff (value : JsonValue) :
    value.toInt=.error .overflowError ↔ ∃ negative, value=.float (.infinite negative) := by
  constructor
  · intro h
    cases value with
    | float x =>
      cases x with
      | infinite negative => exact ⟨negative,rfl⟩
      | nan => cases h
      | finite negative mantissa exponent => cases h
    | string s =>
      rw [JsonValue.toInt] at h
      cases hs : intOfText s <;> rw [hs] at h <;> cases h
    | null => cases h
    | bool b => cases h
    | int n => cases h
    | array items => cases h
    | object fields => cases h
  · rintro ⟨negative,rfl⟩
    rfl

/-- `_clamp` returns a percentage for every value that it can take. -/
theorem clamp_cases (value : JsonValue) :
    (Clampable value ∧ ∃ n, clamp value=.ok n ∧ 0 ≤ n ∧ n≤100) ∨
      (¬Clampable value ∧ clamp value=.error .overflowError) := by
  by_cases hover : value.toInt=.error .overflowError
  · obtain ⟨negative,rfl⟩ := (toInt_overflow_iff value).mp hover
    exact .inr ⟨fun h => h negative rfl,rfl⟩
  · refine .inl ⟨fun negative he => hover ((toInt_overflow_iff value).mpr ⟨negative,he⟩),?_⟩
    unfold clamp
    cases hint : value.toInt with
    | ok n => exact ⟨_,rfl,le_max_left _ _,max_le (by decide) (min_le_left _ _)⟩
    | error error =>
      cases error with
      | valueError => exact ⟨0,rfl,le_rfl,by decide⟩
      | typeError => exact ⟨0,rfl,le_rfl,by decide⟩
      | overflowError => exact absurd hint hover

/-- The verdict is always one of the three. -/
theorem verdictField_mem (r : PythonRepr) (fields : List (Text×JsonValue)) :
    verdictField r fields∈verdictTexts := by
  unfold verdictField
  dsimp only
  split
  · rename_i h
    exact List.contains_iff_mem.mp h
  · decide

/-- The reasons are at most eight texts if they can be gone through. -/
theorem reasonsField_ok_iff (r : PythonRepr) (fields : List (Text×JsonValue)) :
    (∃ reasons, reasonsField r fields=.ok reasons ∧ reasons.length≤8) ↔
      Iterable (field fields "reasons" .null) := by
  unfold reasonsField Iterable
  dsimp only
  generalize field fields "reasons" .null=value
  constructor
  · rintro ⟨reasons,h,-⟩ htrue
    rw [if_pos htrue] at h
    cases hitems : value.iterate with
    | none =>
      rw [hitems] at h
      cases h
    | some items => rfl
  · intro h
    have hsome : ∃ items, (if value.truthy then value else .array []).iterate=some items := by
      split
      · rename_i htrue
        exact Option.isSome_iff_exists.mp (h htrue)
      · exact ⟨[],rfl⟩
    obtain ⟨items,hitems⟩ := hsome
    rw [hitems]
    exact ⟨_,rfl,List.length_take_le 8 _⟩

/-- The imitated brand is a string or nothing if its field is a string or
false. -/
theorem mimicsField_string_iff (fields : List (Text×JsonValue)) :
    (∀ value∈mimicsField fields, ∃ s, value=.string s) ↔
      Nameable (field fields "mimics_brand" .null) := by
  unfold mimicsField Nameable
  dsimp only
  generalize field fields "mimics_brand" .null=value
  by_cases htrue : value.truthy=true
  · rw [if_pos htrue]
    exact ⟨fun h _ => h value rfl,fun h other he => Option.some.inj he ▸ h htrue⟩
  · rw [if_neg htrue]
    exact ⟨fun _ h => absurd h htrue,fun _ value hvalue => nomatch hvalue⟩

/-- The fields of an answer make a verdict that keeps to its ranges exactly if
they are usable. -/
theorem fieldsVerdict_wellFormed_iff (r : PythonRepr) (model : Text)
    (fields : List (Text×JsonValue)) :
    (∃ v, fieldsVerdict r model fields=.ok v ∧ WellFormed v) ↔ Usable fields := by
  constructor
  · rintro ⟨v,hv,hwell⟩
    unfold fieldsVerdict at hv
    rcases clamp_cases (field fields "risk_score" (.int 0)) with ⟨hrisk,n,hn,-⟩|⟨-,hn⟩
    swap
    · rw [hn] at hv
      cases hv
    rcases clamp_cases (field fields "confidence" (.int 0)) with ⟨hconfidence,m,hm,-⟩|⟨-,hm⟩
    swap
    · rw [hn,hm] at hv
      cases hv
    cases hreasons : reasonsField r fields with
    | error error =>
      rw [hn,hm,hreasons] at hv
      cases hv
    | ok reasons =>
      rw [hn,hm,hreasons] at hv
      cases hv
      exact ⟨hrisk,hconfidence,(reasonsField_ok_iff r fields).mp ⟨reasons,hreasons,hwell.reasons⟩,
        (mimicsField_string_iff fields).mp hwell.mimicsBrand⟩
  · intro h
    obtain ⟨-,n,hn,hn0,hn100⟩ :=
      (clamp_cases (field fields "risk_score" (.int 0))).resolve_right fun hc => hc.1 h.riskScore
    obtain ⟨-,m,hm,hm0,hm100⟩ :=
      (clamp_cases (field fields "confidence" (.int 0))).resolve_right fun hc => hc.1 h.confidence
    obtain ⟨reasons,hreasons,hlength⟩ := (reasonsField_ok_iff r fields).mpr h.reasons
    unfold fieldsVerdict
    rw [hn,hm,hreasons]
    exact ⟨_,rfl,verdictField_mem r fields,⟨hn0,hn100⟩,⟨hm0,hm100⟩,hlength,
      (mimicsField_string_iff fields).mpr h.mimicsBrand⟩

/-- A decoded answer makes one exactly if it is an object with usable fields. -/
theorem valueVerdict_wellFormed_iff (r : PythonRepr) (model : Text) (data : JsonValue) :
    (∃ v, valueVerdict r model data=.ok v ∧ WellFormed v) ↔
      ∃ fields, data=.object fields ∧ Usable fields := by
  by_cases hobject : ∃ fields, data=.object fields
  · obtain ⟨fields,rfl⟩ := hobject
    rw [valueVerdict,fieldsVerdict_wellFormed_iff]
    constructor
    · exact fun h => ⟨fields,rfl,h⟩
    · rintro ⟨other,he,h⟩
      cases he
      exact h
  · constructor
    · rintro ⟨v,hv,-⟩
      unfold valueVerdict at hv
      split at hv
      · exact absurd ⟨_,rfl⟩ hobject
      · cases hv
    · rintro ⟨fields,he,-⟩
      exact absurd ⟨fields,he⟩ hobject

/-- The fixed verdict keeps to the ranges. -/
theorem unparseable_wellFormed (model : Text) : WellFormed (unparseable model) where
  verdict := (by decide : "suspicious".toList∈verdictTexts)
  riskScore := (by decide : (0 : ℤ) ≤ 50 ∧ (50 : ℤ)≤100)
  confidence := (by decide : (0 : ℤ) ≤ 10 ∧ (10 : ℤ)≤100)
  reasons := (by decide : 1 ≤ 8)
  mimicsBrand := fun _ h => nomatch h

end Fields

section Answers

/-- The decoded texts of an answer: the whole of it, or the block in braces of
one that is no JSON. -/
def Decodes (loads : Text → Except LoadsError JsonValue) (text : Text) (data : JsonValue) : Prop :=
  loads (unfence text)=.ok data ∨
    loads (unfence text)=.error .decode ∧
      ∃ block, (blockRe.findAll (unfence text)).head?=some block ∧ loads block=.ok data

/-- An answer that is no JSON and has no block in braces. -/
def NoJson (loads : Text → Except LoadsError JsonValue) (text : Text) : Prop :=
  loads (unfence text)=.error .decode ∧ blockRe.findAll (unfence text)=[]

/-- Every answer of a model becomes a verdict whose fields keep to their ranges
exactly if it is no JSON without a block in braces, or decodes to an object
with usable fields. -/
theorem parseVerdict_wellFormed_iff (loads : Text → Except LoadsError JsonValue) (r : PythonRepr)
    (model text : Text) :
    (∃ v, parseVerdict r model loads text=.ok v ∧ WellFormed v) ↔
      NoJson loads text ∨ ∃ fields, Decodes loads text (.object fields) ∧ Usable fields := by
  unfold parseVerdict NoJson Decodes
  dsimp only
  generalize unfence text=cleaned
  cases hloads : loads cleaned with
  | ok data =>
    dsimp only
    rw [valueVerdict_wellFormed_iff]
    simp only [reduceCtorEq,false_and,or_false,false_or,Except.ok.injEq]
  | error error =>
    cases error with
    | raised =>
      simp only [reduceCtorEq,false_and,exists_false,or_false,Except.error.injEq]
    | decode =>
      cases hblock : (blockRe.findAll cleaned).head? with
      | none =>
        dsimp only
        have hnone : blockRe.findAll cleaned=[] := List.head?_eq_none_iff.mp hblock
        exact ⟨fun _ => .inl ⟨rfl,hnone⟩,fun _ => ⟨_,rfl,unparseable_wellFormed model⟩⟩
      | some block =>
        have hsome : blockRe.findAll cleaned≠[] := by
          intro h
          rw [h] at hblock
          cases hblock
        cases hinner : loads block with
        | ok data =>
          simp only [hinner,valueVerdict_wellFormed_iff,hsome,and_false,false_or,true_and,
            reduceCtorEq,Option.some.injEq,exists_eq_left',Except.ok.injEq]
        | error error =>
          simp only [hinner,hsome,and_false,false_or,reduceCtorEq,Option.some.injEq,exists_eq_left',
            false_and,exists_false]

/-- The recursion limit of the interpreter. -/
def recursionLimit : ℕ := 1000

/-- `repr` of the texts of this section, which have no float. -/
def asciiRepr : PythonRepr := ⟨fun _ => [],fun c => 32 ≤ c.toNat && c.toNat<127⟩

/-- An infinite score, an array, and a truth value in the place of a brand do
not become verdicts whose fields keep to their ranges. -/
theorem parseVerdict_malformed :
    (∀ v, parseVerdict asciiRepr [] (loads recursionLimit)
      "\x7b\"verdict\": \"scam\", \"risk_score\": Infinity\x7d".toList=.ok v → ¬WellFormed v) ∧
    (∀ v, parseVerdict asciiRepr [] (loads recursionLimit) "[]".toList=.ok v → ¬WellFormed v) ∧
    (∀ v, parseVerdict asciiRepr [] (loads recursionLimit)
      "```json\n\x7b\"mimics_brand\": true\x7d\n```".toList=.ok v → ¬WellFormed v) := by
  refine ⟨fun v h => ?_,fun v h => ?_,fun v h hwell => ?_⟩
  · cases (show parseVerdict asciiRepr [] (loads recursionLimit) _=.error .overflowError from
      rfl).symm.trans h
  · cases (show parseVerdict asciiRepr [] (loads recursionLimit) _=.error .attributeError from
      rfl).symm.trans h
  · have hbrand : v.mimicsBrand=some (.bool true) := by
      cases h
      rfl
    obtain ⟨s,hs⟩ := hwell.mimicsBrand _ hbrand
    cases hs

end Answers

end ScamLens.ModelAnswers
