import ScamLens.EventRuns
import ScamLens.JsonDumps
import ScamLens.ModelAnswers
import ScamLens.QuickLookups
import ScamLens.VerdictStore

/-!
# The texts under the verdict keys

Three services write JSON texts under `verdict:<domain>`, each with fields of
its own, and two of them read what the others have written. The model of the
cache holds the fields that some reader looks at. Over every run of the writers
the texts stand for these fields, and every reader decodes the live text to
what the model says.
-/

namespace ScamLens.VerdictTexts

open EventRuns ExpiringStores JsonDumps JsonTexts PythonText QuickLookups Resolver
  ScanVerdicts Tables VerdictCache VerdictStore
open ModelAnswers (field)

/-- The string of a verdict. -/
def kindText : VerdictKind → Text
  | .safe => "safe".toList
  | .suspicious => "suspicious".toList
  | .scam => "scam".toList
  | .pending => "pending".toList

/-- A string, or nothing. -/
def optionalText : Option Text → JsonValue
  | none => .null
  | some s => .string s

/-- An integer, or nothing. -/
def optionalInt : Option ℤ → JsonValue
  | none => .null
  | some n => .int n

section Writers

variable (ts : ℕ)

/-- The object of `VerdictCache.set`. -/
def setFields (v : Verdict) : List (Text×JsonValue) :=
  [("verdict".toList,.string (kindText v.verdict)),("risk_score".toList,.int v.riskScore),
    ("confidence".toList,.int v.confidence),("reason".toList,.string v.reason),
    ("source".toList,.string v.source),("ts".toList,.int ts)]

/-- The object of `VerdictCache.mark_pending`. -/
def pendingFields : List (Text×JsonValue) :=
  [("verdict".toList,.string (kindText .pending)),("source".toList,.string "scan_queue".toList),
    ("ts".toList,.int ts)]

/-- The object of `VerdictStore.save`. -/
def savedFields (v : ScanVerdict) : List (Text×JsonValue) :=
  [("verdict".toList,.string v.verdict.text),("risk_score".toList,.int v.riskScore),
    ("confidence".toList,.int v.confidence),("reason".toList,.string v.primaryReason),
    ("mimics_brand".toList,optionalText v.mimicsBrand),("source".toList,.string "ai".toList),
    ("model".toList,.string v.model),("ts".toList,.int ts)]

/-- The object of `VerdictStore.save_error`. -/
def errorFields (reason : Text) : List (Text×JsonValue) :=
  [("verdict".toList,.string "suspicious".toList),("risk_score".toList,.int 30),
    ("confidence".toList,.int 5),("reason".toList,.string reason),
    ("source".toList,.string "scan_error".toList),("ts".toList,.int ts)]

end Writers

section Readers

/-- The exceptions of the readers. -/
inductive ReadError where
  /-- An exception of `json.loads`. -/
  | loads (e : LoadsError)
  /-- `KeyError`: the object has no verdict. -/
  | missingVerdict
  /-- The value is no object. -/
  | notObject
  deriving DecidableEq

/-- The object of a text. -/
def loadFields (depth : ℕ) (raw : Text) : Except ReadError (List (Text×JsonValue)) :=
  match loads depth raw with
  | .error e => .error (.loads e)
  | .ok (.object fields) => .ok fields
  | .ok _ => .error .notObject

/-- `Verdict`, its fields being the values that the object holds. -/
structure DecodedVerdict where
  /-- `"verdict"` -/
  verdict : JsonValue
  /-- `"risk_score"` -/
  riskScore : JsonValue
  /-- `"confidence"` -/
  confidence : JsonValue
  /-- `"reason"` -/
  reason : JsonValue
  /-- `"source"` -/
  source : JsonValue

/-- The verdict of an object, with the defaults of `VerdictCache.get`. -/
def decodeFields (fields : List (Text×JsonValue)) : Except ReadError DecodedVerdict :=
  match fields.lookup "verdict".toList with
  | none => .error .missingVerdict
  | some verdict => .ok {
      verdict := verdict
      riskScore := field fields "risk_score" (.int 0)
      confidence := field fields "confidence" (.int 0)
      reason := field fields "reason" (.string [])
      source := field fields "source" (.string "cache".toList) }

/-- `VerdictCache.get` on the text that its GET returns. -/
def getText (depth : ℕ) (raw : Option Text) : Except ReadError (Option DecodedVerdict) :=
  match raw.filter (· != []) with
  | none => .ok none
  | some raw => do
    let fields ← loadFields depth raw
    let verdict ← decodeFields fields
    return some verdict

/-- The verdict that the resolver handles, as an object holds it. -/
def decoded (v : Verdict) : DecodedVerdict where
  verdict := .string (kindText v.verdict)
  riskScore := .int v.riskScore
  confidence := .int v.confidence
  reason := .string v.reason
  source := .string v.source

/-- The fields of a `CheckResponse` that come from a cached object. -/
structure ReportedFields where
  /-- `verdict` -/
  verdict : JsonValue
  /-- `risk_score` -/
  riskScore : JsonValue
  /-- `confidence` -/
  confidence : JsonValue
  /-- `reason` -/
  reason : JsonValue
  /-- `mimics_brand` -/
  mimicsBrand : JsonValue
  /-- `source` -/
  source : JsonValue

/-- The fields that `check` takes from a cached text. -/
def checkText (depth : ℕ) (raw : Text) : Except ReadError ReportedFields :=
  (loadFields depth raw).map fun fields => {
    verdict := field fields "verdict" (.string "unknown".toList)
    riskScore := field fields "risk_score" .null
    confidence := field fields "confidence" .null
    reason := field fields "reason" .null
    mimicsBrand := field fields "mimics_brand" .null
    source := field fields "source" (.string "cache".toList) }

/-- The string of a reported verdict. -/
def reportedText : ReportedVerdict → Text
  | .known kind => kindText kind
  | .unknown => "unknown".toList

/-- The same fields of a response. -/
def reported (response : CheckResponse) : ReportedFields where
  verdict := .string (reportedText response.verdict)
  riskScore := optionalInt response.riskScore
  confidence := optionalInt response.confidence
  reason := optionalText response.reason
  mimicsBrand := optionalText response.mimicsBrand
  source := .string response.source

end Readers

section Runs

/-- A command on a verdict key, or the passing of time. -/
inductive Command where
  | tick (seconds : ℕ)
  /-- `VerdictCache.set` -/
  | set (domain : Text) (verdict : Verdict) (ttl : ℕ)
  /-- `VerdictCache.mark_pending` -/
  | markPending (domain : Text) (ttl : ℕ)
  /-- `VerdictStore.save` -/
  | save (domain : Text) (verdict : ScanVerdict)
  /-- `VerdictStore.save_error` -/
  | saveError (domain reason : Text)
  /-- The DEL of an admin list write. -/
  | delete (domain : Text)

/-- The verdict keys of Redis as they are: texts. -/
structure TextCache where
  /-- The current second. -/
  now : ℕ
  /-- Texts under `verdict:<domain>`. -/
  verdicts : ExpiringStore Text Text

/-- The verdict keys of Redis as the model has them. -/
structure FieldCache where
  /-- The current second. -/
  now : ℕ
  /-- The shared Redis. -/
  redis : Redis

variable (cfg : Config) (float : PyFloat → Text) (depth : ℕ)

/-- A SET of an object that may claim a free key only; an exception of the
encoder comes before it. -/
def putText (s : TextCache) (ttl : ℕ) (domain : Text) (onlyFree : Bool)
    (fields : List (Text×JsonValue)) : TextCache :=
  match dumps float (depth+1) (.object fields) with
  | none => s
  | some raw =>
    if onlyFree then {s with verdicts := (setIfAbsent s.verdicts s.now ttl domain raw).1}
    else {s with verdicts := setFor s.verdicts s.now ttl domain raw}

/-- One command on the texts. -/
def textStep (s : TextCache) : Command → TextCache
  | .tick seconds => {s with now := s.now+seconds}
  | .set domain verdict ttl => putText float depth s ttl domain false (setFields s.now verdict)
  | .markPending domain ttl => putText float depth s ttl domain true (pendingFields s.now)
  | .save domain verdict =>
    putText float depth s (pickTtl cfg verdict.verdict) domain false (savedFields s.now verdict)
  | .saveError domain reason =>
    putText float depth s cfg.unknownTtl domain false (errorFields s.now reason)
  | .delete domain => {s with verdicts := s.verdicts.erase domain}

/-- The interpreter writes the integer. -/
def Writable (n : ℤ) : Prop := (Nat.toDigits 10 n.natAbs).length ≤ maxDigits

instance (n : ℤ) : Decidable (Writable n) := inferInstanceAs (Decidable (_≤_))

/-- The integers of an object that is written at the given second. -/
def Command.ints (now : ℕ) : Command → List ℤ
  | .tick _ => []
  | .set _ verdict _ => [verdict.riskScore,verdict.confidence,now]
  | .markPending _ _ => [now]
  | .save _ verdict => [verdict.riskScore,verdict.confidence,now]
  | .saveError _ _ => [30,5,now]
  | .delete _ => []

/-- One command on the fields, which does nothing where the encoder raises. -/
def fieldStep (s : FieldCache) (command : Command) : FieldCache :=
  if ∀ n∈command.ints s.now, Writable n then
    match command with
    | .tick seconds => {s with now := s.now+seconds}
    | .set domain verdict ttl => {s with redis := cacheSet s.redis s.now domain verdict ttl}
    | .markPending domain ttl => {s with redis := (markPending s.redis s.now domain ttl).1}
    | .save domain verdict => {s with redis := saveCache cfg s.now domain s.redis verdict}
    | .saveError domain reason =>
      {s with redis := saveErrorCache cfg s.now domain s.redis reason}
    | .delete domain => {s with redis := s.redis.deleteDomain domain}
  else s

/-- Redis before any command. -/
def TextCache.init : TextCache := ⟨0,∅⟩

/-- The same for the model. -/
def FieldCache.init : FieldCache := ⟨0,Redis.init⟩

end Runs

section Objects

variable {float : PyFloat → Text} {depth : ℕ}

/-- What the readers see of an object. -/
structure FieldsOf (fields : List (Text×JsonValue)) (data : CachedJson) : Prop where
  /-- No key occurs twice, and no value is a float. -/
  plain : JsonPlain (.object fields)
  /-- The resolver decodes the object as the model does. -/
  resolver : ∃ v, cacheGet (.reply (some (.object data)))=.ok (some v) ∧
    decodeFields fields=.ok (decoded v)
  /-- The lookup endpoint reports the fields that the model holds. -/
  verdict : field fields "verdict" (.string "unknown".toList)=
    .string (reportedText (data.verdict.elim .unknown .known))
  /-- Risk score. -/
  riskScore : field fields "risk_score" .null=optionalInt data.riskScore
  /-- Confidence. -/
  confidence : field fields "confidence" .null=optionalInt data.confidence
  /-- Reason. -/
  reason : field fields "reason" .null=optionalText data.reason
  /-- Imitated brand. -/
  mimicsBrand : field fields "mimics_brand" .null=optionalText data.mimicsBrand
  /-- Source. -/
  source : field fields "source" (.string "cache".toList)=
    .string (data.source.getD "cache".toList)
  /-- Source, nothing where there is none. -/
  sourceOrNull : field fields "source" .null=optionalText data.source

/-- A text is the object of a payload. -/
def TextOf (float : PyFloat → Text) (depth : ℕ) (raw : Text) (data : CachedJson) : Prop :=
  ∃ fields, dumps float (depth+1) (.object fields)=some raw ∧ FieldsOf fields data

/-- The verdict string of a finished scan is the string of its kind. -/
theorem text_eq_kindText (c : ScanClass) : c.text=kindText c.kind := by
  cases c <;> rfl

/-- The keys of every object that is written are distinct. -/
theorem keys_nodup :
    (["verdict","risk_score","confidence","reason","source","ts"].map String.toList).Nodup ∧
      (["verdict","source","ts"].map String.toList).Nodup ∧
      (["verdict","risk_score","confidence","reason","mimics_brand","source","model",
        "ts"].map String.toList).Nodup := by decide

/-- A text or nothing is no float. -/
theorem plain_optionalText (s : Option Text) : JsonPlain (optionalText s) := by
  cases s <;> exact trivial

/-- The object of `VerdictCache.set` has the fields of its payload. -/
theorem fieldsOf_set (ts : ℕ) (v : Verdict) : FieldsOf (setFields ts v) v.payload where
  plain := ⟨keys_nodup.1,by simp [setFields,FieldsPlain,JsonPlain]⟩
  resolver := ⟨v,rfl,rfl⟩
  verdict := rfl
  riskScore := rfl
  confidence := rfl
  reason := rfl
  mimicsBrand := rfl
  source := rfl
  sourceOrNull := rfl

/-- The object of a pending marker has the fields of its payload. -/
theorem fieldsOf_pending (ts : ℕ) : FieldsOf (pendingFields ts) pendingPayload where
  plain := ⟨keys_nodup.2.1,by simp [pendingFields,FieldsPlain,JsonPlain]⟩
  resolver := ⟨_,rfl,rfl⟩
  verdict := rfl
  riskScore := rfl
  confidence := rfl
  reason := rfl
  mimicsBrand := rfl
  source := rfl
  sourceOrNull := rfl

/-- The object of `VerdictStore.save` has the fields of its payload. -/
theorem fieldsOf_saved (ts : ℕ) (v : ScanVerdict) :
    FieldsOf (savedFields ts v) (savedPayload v) where
  plain := ⟨keys_nodup.2.2,by
    simp [savedFields,FieldsPlain,JsonPlain,plain_optionalText]⟩
  resolver := by
    refine ⟨_,rfl,?_⟩
    rw [decoded,←text_eq_kindText]
    rfl
  verdict := congrArg JsonValue.string (text_eq_kindText v.verdict)
  riskScore := rfl
  confidence := rfl
  reason := rfl
  mimicsBrand := rfl
  source := rfl
  sourceOrNull := rfl

/-- The object of `VerdictStore.save_error` has the fields of its payload. -/
theorem fieldsOf_error (ts : ℕ) (reason : Text) :
    FieldsOf (errorFields ts reason) (errorPayload reason) where
  plain := ⟨keys_nodup.1,by simp [errorFields,FieldsPlain,JsonPlain]⟩
  resolver := ⟨_,rfl,rfl⟩
  verdict := rfl
  riskScore := rfl
  confidence := rfl
  reason := rfl
  mimicsBrand := rfl
  source := rfl
  sourceOrNull := rfl

variable {fields : List (Text×JsonValue)} {data : CachedJson} {raw : Text}

/-- A written object is decoded to its fields. -/
theorem loadFields_dumps (h : dumps float (depth+1) (.object fields)=some raw)
    (hplain : JsonPlain (.object fields)) : loadFields (depth+1) raw=.ok fields := by
  rw [loadFields,loads_dumps h hplain]

/-- A written object is not the empty text. -/
theorem dumps_ne_nil (h : dumps float (depth+1) (.object fields)=some raw)
    (hplain : JsonPlain (.object fields)) : raw≠[] := (reads_encode h hplain).ne_nil

/-- The resolver decodes a text as the model does. -/
theorem TextOf.getText (h : TextOf float depth raw data) :
    ∃ v, cacheGet (.reply (some (.object data)))=.ok (some v) ∧
      getText (depth+1) (some raw)=.ok (some (decoded v)) := by
  obtain ⟨fields,hdumps,hfields⟩ := h
  obtain ⟨v,hget,hdecode⟩ := hfields.resolver
  have hne : (some raw).filter (· != [])=some raw :=
    Option.filter_eq_some_iff.mpr ⟨rfl,bne_iff_ne.mpr (dumps_ne_nil hdumps hfields.plain)⟩
  refine ⟨v,hget,?_⟩
  rw [VerdictTexts.getText,hne]
  change (loadFields (depth+1) raw).bind _=_
  rw [loadFields_dumps hdumps hfields.plain]
  change (decodeFields fields).bind _=_
  rw [hdecode]
  rfl

/-- The lookup endpoint reports of a text what the model reports. -/
theorem TextOf.checkText (h : TextOf float depth raw data) {db : Database} {domain : Text}
    {values : Text → Option RawValue} (hvalues : values domain=some (.object data))
    (hseed : (blocklistMatch db domain).filter (· != [])=none) :
    ∃ response, checkNormalized db values domain=.answered response [] ∧
      checkText (depth+1) raw=.ok (reported response) := by
  obtain ⟨fields,hdumps,hfields⟩ := h
  refine ⟨_,by rw [checkNormalized,hseed,hvalues],?_⟩
  rw [VerdictTexts.checkText,loadFields_dumps hdumps hfields.plain,Except.map,reported,
    hfields.verdict,hfields.riskScore,hfields.confidence,hfields.reason,hfields.mimicsBrand,
    hfields.source]

/-- Strings, integers and nothing. -/
def IsFlat : JsonValue → Prop
  | .null => True
  | .int _ => True
  | .string _ => True
  | _ => False

/-- The integers among some fields. -/
def intsOf (fields : List (Text×JsonValue)) : List ℤ :=
  fields.filterMap fun entry => match entry.2 with
    | .int n => some n
    | _ => none

/-- Flat fields can be written exactly if their integers can. -/
theorem encodeFields_isSome (float : PyFloat → Text) (depth : ℕ)
    {fields : List (Text×JsonValue)} (hflat : ∀ entry∈fields, IsFlat entry.2) :
    (encodeFields float depth fields).isSome=true ↔ ∀ n∈intsOf fields, Writable n := by
  induction fields with
  | nil => exact ⟨fun _ => List.forall_mem_nil _,fun _ => rfl⟩
  | cons entry fields ih =>
    obtain ⟨key,value⟩ := entry
    rw [List.forall_mem_cons] at hflat
    have hrest := ih hflat.2
    have hbind (part : Text) : (((some part).bind fun part => (encodeFields float depth fields).map
        ((encodeString key++": ".toList++part)::·)).isSome=true) ↔
        ∀ n∈intsOf fields, Writable n := by
      rw [Option.bind_some,Option.isSome_map]
      exact hrest
    rw [encodeFields]
    cases value with
    | null => exact hbind _
    | string s => exact hbind _
    | int n =>
      have hints : intsOf ((key,.int n)::fields)=n::intsOf fields := rfl
      rw [hints,List.forall_mem_cons,encode,encodeInt]
      split
      · rename_i hlong
        exact iff_of_false (by simp) fun hall => absurd hall.1 (Nat.not_le.mpr hlong)
      · rename_i hshort
        exact (hbind _).trans ⟨fun hall => ⟨Nat.le_of_not_lt hshort,hall⟩,And.right⟩
    | bool b => exact hflat.1.elim
    | float x => exact hflat.1.elim
    | array items => exact hflat.1.elim
    | object inner => exact hflat.1.elim

/-- Either the encoder writes the object, or one of its integers is too long. -/
theorem dumps_cases (float : PyFloat → Text) (depth : ℕ) (hflat : ∀ entry∈fields, IsFlat entry.2) :
    ((∀ n∈intsOf fields, Writable n) ∧ ∃ raw, dumps float (depth+1) (.object fields)=some raw) ∨
      (¬(∀ n∈intsOf fields, Writable n) ∧ dumps float (depth+1) (.object fields)=none) := by
  have hsome := encodeFields_isSome float depth hflat
  rw [dumps,encode]
  cases hfields : encodeFields float depth fields with
  | none =>
    rw [hfields] at hsome
    exact Or.inr ⟨fun hall => Bool.noConfusion (hsome.mpr hall),rfl⟩
  | some parts =>
    rw [hfields] at hsome
    exact Or.inl ⟨hsome.mp rfl,_,rfl⟩

end Objects

section Simulation

variable {cfg : Config} {float : PyFloat → Text} {depth : ℕ}

/-- The texts stand for the fields that the model holds. -/
structure Simulates (float : PyFloat → Text) (depth : ℕ) (s : TextCache) (a : FieldCache) :
    Prop where
  /-- The second is the same. -/
  now : s.now=a.now
  /-- So are the keys, with texts of the payloads. -/
  verdicts : Represents (TextOf float depth) s.verdicts a.redis.verdicts

/-- Before any command the two agree. -/
theorem simulates_init : Simulates float depth TextCache.init FieldCache.init :=
  ⟨rfl,represents_empty⟩

variable {s : TextCache} {a : FieldCache}

/-- A SET NX of a payload. -/
def setPayload (redis : Redis) (now ttl : ℕ) (domain : Text) (data : CachedJson) : Redis :=
  {redis with verdicts := (setIfAbsent redis.verdicts now ttl domain data).1}

/-- A SET of an object agrees with a SET of its payload, if its integers can be
written, and is none otherwise. -/
theorem Simulates.put (h : Simulates float depth s a) {fields : List (Text×JsonValue)}
    {data : CachedJson} (hfields : FieldsOf fields data) (hflat : ∀ entry∈fields, IsFlat entry.2)
    (ttl : ℕ) (domain : Text) (onlyFree : Bool) :
    Simulates float depth (putText float depth s ttl domain onlyFree fields)
      (if ∀ n∈intsOf fields, Writable n then
        if onlyFree then ⟨a.now,(setPayload a.redis a.now ttl domain data)⟩
        else ⟨a.now,a.redis.putVerdict a.now ttl domain data⟩
      else a) := by
  rcases dumps_cases float depth hflat with ⟨hall,raw,hraw⟩ | ⟨hnot,hnone⟩
  · have htext : TextOf float depth raw data := ⟨fields,hraw,hfields⟩
    rw [if_pos hall,putText,hraw]
    cases onlyFree with
    | true => exact ⟨h.now,h.now ▸ (h.verdicts.setIfAbsent htext s.now ttl domain).1⟩
    | false => exact ⟨h.now,h.now ▸ h.verdicts.setFor htext s.now ttl domain⟩
  · rw [if_neg hnot,putText,hnone]
    exact h

/-- A text or nothing is flat. -/
theorem isFlat_optionalText (t : Option Text) : IsFlat (optionalText t) := by
  cases t <;> exact trivial

/-- A text or nothing has no integers. -/
theorem intsOf_savedFields (ts : ℕ) (v : ScanVerdict) :
    intsOf (savedFields ts v)=[v.riskScore,v.confidence,(ts : ℤ)] := by
  rw [savedFields]
  cases v.mimicsBrand <;> rfl

/-- Every command keeps the texts standing for the fields. -/
theorem Simulates.step (h : Simulates float depth s a) (command : Command) :
    Simulates float depth (textStep cfg float depth s command) (fieldStep cfg a command) := by
  cases command with
  | tick seconds =>
    have hall : ∀ n∈(Command.tick seconds).ints a.now, Writable n := List.forall_mem_nil _
    rw [fieldStep,if_pos hall]
    exact ⟨congrArg (·+seconds) h.now,h.verdicts⟩
  | set domain verdict ttl =>
    have hput := h.put (fieldsOf_set s.now verdict) (by simp [setFields,IsFlat]) ttl domain false
    rw [show intsOf (setFields s.now verdict)=
      (Command.set domain verdict ttl).ints s.now from rfl,h.now] at hput
    rw [textStep,h.now]
    exact hput
  | markPending domain ttl =>
    have hput := h.put (fieldsOf_pending s.now) (by simp [pendingFields,IsFlat]) ttl domain true
    rw [show intsOf (pendingFields s.now)=
      (Command.markPending domain ttl).ints s.now from rfl,h.now] at hput
    rw [textStep,h.now]
    exact hput
  | save domain verdict =>
    have hflat : ∀ entry∈savedFields s.now verdict, IsFlat entry.2 := by
      simp only [savedFields,List.forall_mem_cons]
      exact ⟨trivial,trivial,trivial,trivial,isFlat_optionalText _,trivial,trivial,trivial,
        List.forall_mem_nil _⟩
    have hput := h.put (fieldsOf_saved s.now verdict) hflat (pickTtl cfg verdict.verdict) domain
      false
    rw [intsOf_savedFields,h.now] at hput
    rw [textStep,h.now]
    exact hput
  | saveError domain reason =>
    have hput := h.put (fieldsOf_error s.now reason) (by simp [errorFields,IsFlat])
      cfg.unknownTtl domain false
    rw [show intsOf (errorFields s.now reason)=
      (Command.saveError domain reason).ints s.now from rfl,h.now] at hput
    rw [textStep,h.now]
    exact hput
  | delete domain =>
    have hall : ∀ n∈(Command.delete domain).ints a.now, Writable n := List.forall_mem_nil _
    rw [fieldStep,if_pos hall]
    exact ⟨h.now,h.verdicts.erase domain⟩

/-- So does every run. -/
theorem simulates_run (cfg : Config) (commands : List Command) (h : Simulates float depth s a) :
    Simulates float depth (run (textStep cfg float depth) s commands)
      (run (fieldStep cfg) a commands) := by
  induction commands generalizing s a with
  | nil => exact h
  | cons command commands ih => exact ih (h.step command)

/-- After every run of the writers, the resolver decodes the text under a key
without an exception to the verdict that the model reads there, and the lookup
endpoint reports of the text what it reports in the model. -/
theorem texts_read_as_fields (cfg : Config) (float : PyFloat → Text) (depth : ℕ)
    (commands : List Command) (domain : Text) (db : Database) :
    let s := run (textStep cfg float depth) TextCache.init commands
    let a := run (fieldStep cfg) FieldCache.init commands
    (∃ v, cacheGet (a.redis.getVerdict a.now true domain)=.ok v ∧
      getText (depth+1) (getLive s.verdicts s.now domain)=.ok (v.map decoded)) ∧
    ∀ raw, getLive s.verdicts s.now domain=some raw →
      (blocklistMatch db domain).filter (· != [])=none →
      ∃ response,
        checkNormalized db (fun m => (getLive a.redis.verdicts a.now m).map .object) domain=
          .answered response [] ∧
        checkText (depth+1) raw=.ok (reported response) := by
  intro s a
  have hrun : Simulates float depth s a := simulates_run cfg commands simulates_init
  have hlive := hrun.verdicts.getLive s.now domain
  rw [getVerdict_up,←hrun.now]
  cases hraw : getLive s.verdicts s.now domain <;>
    cases hdata : getLive a.redis.verdicts s.now domain <;> rw [hraw,hdata] at hlive
  · exact ⟨⟨none,rfl,rfl⟩,fun raw heq => nomatch heq⟩
  · nomatch hlive
  · nomatch hlive
  · rename_i raw data
    have htext : TextOf float depth raw data := by
      cases hlive
      assumption
    obtain ⟨v,hget,hdecode⟩ := htext.getText
    refine ⟨⟨some v,hget,hdecode⟩,fun other heq hseed => ?_⟩
    obtain rfl := Option.some.inj heq
    exact htext.checkText (congrArg (Option.map RawValue.object) hdata) hseed

end Simulation

end ScamLens.VerdictTexts
