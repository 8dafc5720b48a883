import Mathlib.Data.Int.Notation
import ScamLens.ExpiringStores
import ScamLens.PythonText

/-!
# The verdict cache and the scan queue

Redis as the DNS server, the API and the scanner share it: verdicts under
`verdict:<domain>`, finished deep scans under `deep:<domain>`, rate-limit
marks under `rl:<domain>` and the scan queue. Key prefixes are disjoint, so
each prefix is a store of its own. Payloads are the JSON objects the writers
store, with the fields that some reader looks at.
-/

namespace ScamLens.VerdictCache

open ExpiringStores PythonText

/-- The verdict strings the services write. -/
inductive VerdictKind where
  | safe
  | suspicious
  | scam
  | pending
  deriving DecidableEq,Repr

/-- A verdict as the resolver handles it, with the defaults of the dataclass. -/
structure Verdict where
  /-- Verdict string. -/
  verdict : VerdictKind
  /-- Risk score, 0 when the payload has none. -/
  riskScore : ℤ := 0
  /-- Confidence, 0 when the payload has none. -/
  confidence : ℤ := 0
  /-- Human-readable reason. -/
  reason : Text := []
  /-- Writer of the verdict. -/
  source : Text := "cache".toList
  deriving DecidableEq

/-- Verdicts that make the resolver sinkhole a name. -/
def VerdictKind.isBlocking : VerdictKind → Bool
  | .scam => true
  | .suspicious => true
  | .safe => false
  | .pending => false

/-- `Verdict.is_blocking`. -/
def Verdict.isBlocking (v : Verdict) : Bool := v.verdict.isBlocking

/-- A JSON object stored under a verdict key. Absent fields are none. -/
structure CachedJson where
  /-- `"verdict"`, the one field the resolver insists on. -/
  verdict : Option VerdictKind
  /-- `"risk_score"`. -/
  riskScore : Option ℤ
  /-- `"confidence"`. -/
  confidence : Option ℤ
  /-- `"reason"`. -/
  reason : Option Text
  /-- `"mimics_brand"`, read by the lookup endpoint only. -/
  mimicsBrand : Option Text
  /-- `"source"`. -/
  source : Option Text
  deriving DecidableEq

/-- What a verdict key may hold besides a well-formed object. -/
inductive RawValue where
  | empty
  | malformed
  | object (data : CachedJson)

/-- Outcome of one GET: it raises, or returns the stored string if any. -/
inductive RedisGet where
  | raises
  | reply (raw : Option RawValue)

/-- The exceptions that leave a cache read. -/
inductive Failure where
  | redisUnavailable
  | jsonDecodeError
  | missingVerdict
  deriving DecidableEq

/-- `VerdictCache.get`, given the outcome of its GET. -/
def cacheGet : RedisGet → Except Failure (Option Verdict)
  | .raises => .error .redisUnavailable
  | .reply none => .ok none
  | .reply (some .empty) => .ok none
  | .reply (some .malformed) => .error .jsonDecodeError
  | .reply (some (.object data)) =>
    match data.verdict with
    | none => .error .missingVerdict
    | some v => .ok (some {
        verdict := v
        riskScore := data.riskScore.getD 0
        confidence := data.confidence.getD 0
        reason := data.reason.getD []
        source := data.source.getD "cache".toList })

/-- The shared Redis database. -/
structure Redis where
  /-- Verdicts under `verdict:<domain>`. -/
  verdicts : ExpiringStore Text CachedJson
  /-- Deep-scan reports under `deep:<domain>`, as JSON text. -/
  deep : ExpiringStore Text Text
  /-- Rate-limit marks under `rl:<domain>`. -/
  rateLimits : ExpiringStore Text Unit
  /-- The scan queue, its head being the last domain pushed. -/
  scanQueue : List Text

/-- The GET of a verdict key at the given second, against a Redis that may
refuse the command. -/
def Redis.getVerdict (redis : Redis) (now : ℕ) (up : Bool) (domain : Text) : RedisGet :=
  if up then .reply ((getLive redis.verdicts now domain).map RawValue.object) else .raises

/-- Payload of `VerdictCache.set`. -/
def Verdict.payload (v : Verdict) : CachedJson where
  verdict := some v.verdict
  riskScore := some v.riskScore
  confidence := some v.confidence
  reason := some v.reason
  mimicsBrand := none
  source := some v.source

/-- Payload of a pending marker. -/
def pendingPayload : CachedJson where
  verdict := some .pending
  riskScore := none
  confidence := none
  reason := none
  mimicsBrand := none
  source := some "scan_queue".toList

/-- Store a payload under a verdict key for the given number of seconds. -/
def Redis.putVerdict (redis : Redis) (now ttl : ℕ) (domain : Text) (data : CachedJson) : Redis :=
  {redis with verdicts := setFor redis.verdicts now ttl domain data}

/-- `VerdictCache.set`. -/
def cacheSet (redis : Redis) (now : ℕ) (domain : Text) (verdict : Verdict) (ttl : ℕ) : Redis :=
  redis.putVerdict now ttl domain verdict.payload

/-- `VerdictCache.mark_pending`: claim the key when no live entry holds it. -/
def markPending (redis : Redis) (now : ℕ) (domain : Text) (ttl : ℕ) : Redis×Bool :=
  let claim := setIfAbsent redis.verdicts now ttl domain pendingPayload
  ({redis with verdicts := claim.1},claim.2)

/-- `VerdictCache.enqueue_scan`. -/
def enqueueScan (redis : Redis) (domain : Text) : Redis :=
  {redis with scanQueue := domain::redis.scanQueue}

/-- Seconds between two enqueues of one domain. -/
def rateLimitWindow : ℕ := 60

/-- `VerdictCache.rate_limit_ok`. -/
def rateLimitOk (redis : Redis) (now : ℕ) (domain : Text) : Redis×Bool :=
  let mark := setIfAbsent redis.rateLimits now rateLimitWindow domain ()
  ({redis with rateLimits := mark.1},mark.2)

/-- The DEL that ends every admin list write: drop the verdict and the
finished deep scan of a domain. -/
def Redis.deleteDomain (redis : Redis) (domain : Text) : Redis :=
  {redis with verdicts := redis.verdicts.erase domain, deep := redis.deep.erase domain}

/-- An empty Redis. -/
def Redis.init : Redis where
  verdicts := ∅
  deep := ∅
  rateLimits := ∅
  scanQueue := []

/-- A reachable Redis always returns what a live verdict key holds. -/
@[simp] theorem getVerdict_up (redis : Redis) (now : ℕ) (domain : Text) :
    redis.getVerdict now true domain=
      .reply ((getLive redis.verdicts now domain).map RawValue.object) := rfl

/-- An object with a verdict is readable. -/
theorem cacheGet_of_verdict {data : CachedJson} {kind : VerdictKind}
    (h : data.verdict=some kind) :
    ∃ v, cacheGet (.reply (some (.object data)))=.ok (some v) ∧ v.verdict=kind := by
  rw [cacheGet,h]
  exact ⟨_,rfl,rfl⟩

end ScamLens.VerdictCache
