import ScamLens.Tables

/-!
# Persisting scan verdicts

A save writes the Redis entry, the verdict row and, for a confident scam, a
blocklist row, in three commands that can fail one by one; only a failure of
the first leaves the call as an exception. A scan that comes to no verdict
leaves a marker in Redis instead.
-/

namespace ScamLens.VerdictStore

open PythonText Resolver ScanVerdicts Tables VerdictCache

/-- The two databases the scanner writes. -/
structure Stores where
  /-- The shared Redis. -/
  redis : Redis
  /-- The Postgres database. -/
  db : Database

/-- `_pick_ttl` -/
def pickTtl (cfg : Config) : ScanClass → ℕ
  | .safe => cfg.safeTtl
  | .scam => cfg.scamTtl
  | .suspicious => cfg.unknownTtl

/-- Payload of a saved verdict. -/
def savedPayload (v : ScanVerdict) : CachedJson where
  verdict := some v.verdict.kind
  riskScore := some v.riskScore
  confidence := some v.confidence
  reason := some v.primaryReason
  mimicsBrand := v.mimicsBrand
  source := some "ai".toList

/-- Payload of the marker of a failed scan. -/
def errorPayload (reason : Text) : CachedJson where
  verdict := some .suspicious
  riskScore := some 30
  confidence := some 5
  reason := some reason
  mimicsBrand := none
  source := some "scan_error".toList

section Commands

variable (cfg : Config) (now : ℕ) (domain : Text)

/-- The SET of `VerdictStore.save`. -/
def saveCache (redis : Redis) (v : ScanVerdict) : Redis :=
  redis.putVerdict now (pickTtl cfg v.verdict) domain (savedPayload v)

/-- Whether a verdict is sure enough for the blocklist. -/
def confirmsScam (v : ScanVerdict) : Bool := v.verdict=.scam && 70≤v.confidence

/-- A scam verdict that is sure enough. -/
def scamVerdict : ScanVerdict where
  verdict := .scam
  riskScore := 90
  confidence := 90
  reasons := []
  mimicsBrand := none
  model := "model".toList

example : confirmsScam scamVerdict=true := by decide

/-- The blocklist INSERT of `VerdictStore.save`. -/
def savePromote (db : Database) (v : ScanVerdict) : Database :=
  if confirmsScam v then db.promoteToBlocklist domain "ai-confirmed".toList else db

/-- The SET of `VerdictStore.save_error`. -/
def saveErrorCache (redis : Redis) (reason : Text) : Redis :=
  redis.putVerdict now cfg.unknownTtl domain (errorPayload reason)

/-- `VerdictStore.save`, given which of its commands Redis and Postgres carry
out: an exception of the SET escapes, the others are only logged. -/
def save (stores : Stores) (v : ScanVerdict) (set : Except Text Unit) (row promote : Bool) :
    Except Text Stores :=
  set.map fun _ =>
    let db := if row then stores.db.upsertVerdict domain v else stores.db
    {redis := saveCache cfg now domain stores.redis v
     db := if promote then savePromote domain db v else db}

/-- `VerdictStore.save_error`, given the outcome of its SET. -/
def saveError (stores : Stores) (reason : Text) (set : Except Text Unit) : Except Text Stores :=
  set.map fun _ => {stores with redis := saveErrorCache cfg now domain stores.redis reason}

end Commands

/-- What a save leaves in Redis. -/
theorem lookup_saveCache (cfg : Config) (now : ℕ) (domain other : Text) (redis : Redis)
    (v : ScanVerdict) :
    (saveCache cfg now domain redis v).verdicts.lookup other=
      if other=domain then some ⟨savedPayload v,now+pickTtl cfg v.verdict⟩
      else redis.verdicts.lookup other :=
  KeyedTables.lookup_insert_ite _ _ _ _

/-- What a failed scan leaves in Redis. -/
theorem lookup_saveErrorCache (cfg : Config) (now : ℕ) (domain other : Text) (redis : Redis)
    (reason : Text) :
    (saveErrorCache cfg now domain redis reason).verdicts.lookup other=
      if other=domain then some ⟨errorPayload reason,now+cfg.unknownTtl⟩
      else redis.verdicts.lookup other :=
  KeyedTables.lookup_insert_ite _ _ _ _

end ScamLens.VerdictStore
