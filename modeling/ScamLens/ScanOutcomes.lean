import ScamLens.ScanWorker

/-!
# How a scan of a popped domain ends

`Worker._run_one` with every call it makes free to raise, the page classifier
included. Whatever the calls return or raise, a scan whose Redis writes are
carried out ends without an exception in one final entry of its domain, and
only a confident scam goes on the blocklist.
-/

namespace ScamLens.ScanOutcomes

open Heuristics PythonText Resolver ScanVerdicts ScanWorker Tables VerdictCache VerdictStore

section Scan

variable (domain : Text) (age : Except Text (Option ℤ)) (fetch : Except Text (Option PageCapture))
  (classify : PageCapture → Except Text (Option Text)) (ai : AIRequest → Except Text ScanVerdict)

/-- The scan of a captured page, given what `classify_empty_page` returns or
raises. An empty reason is none. -/
def scanCaptured (days : Option ℤ) (page : PageCapture) : Except Text Persist := do
  let reason ← classify page
  match reason.filter (· ≠ []) with
  | some empty => return .saveError ("empty page: ".toList++empty)
  | none =>
    let verdict ← ai (aiRequest domain page)
    return .save (bumpFresh days (applyHeuristicFloor verdict (analyze page.html domain) domain))

/-- The body of `Worker._run_one` up to the call that ends it, or the
exception that leaves it before. -/
def scanOutcome : Except Text Persist := do
  let days ← age
  match days.filter (ageAutoSafeDays≤·) with
  | some n => return .save (agedVerdict n)
  | none =>
    match ← fetch with
    | none => return .saveError "fetch failed".toList
    | some page => scanCaptured domain classify ai days page

/-- The call that ends a scan, the one of its exception handler included. -/
def finalPersist : Persist :=
  match scanOutcome domain age fetch classify ai with
  | .ok call => call
  | .error name => .saveError (scanErrorReason name)

variable (cfg : Config) (now : ℕ) (stores : Stores) (set : Except Text Unit)
  (row promote : Bool) (handlerSet : Except Text Unit)

/-- A call that ends a scan, given the outcomes of its commands. -/
def perform : Persist → Except Text Stores
  | .save verdict => save cfg now domain stores verdict set row promote
  | .saveError reason => saveError cfg now domain stores reason set

/-- `Worker._run_one`: the two databases after a scan, or the exception that
leaves its handler. -/
def runOutcome : Except Text Stores :=
  match (scanOutcome domain age fetch classify ai).bind
      (perform domain cfg now stores set row promote) with
  | .ok after => .ok after
  | .error name => saveError cfg now domain stores (scanErrorReason name) handlerSet

end Scan

section Pure

variable {charRefs : Text → Text} {domain : Text} {age : Except Text (Option ℤ)}
  {fetch : Except Text (Option PageCapture)} {ai : AIRequest → Except Text ScanVerdict}
  {cfg : Config} {now : ℕ} {stores : Stores} {set : Except Text Unit} {row promote : Bool}
  {handlerSet : Except Text Unit}

/-- The reason of a page without content is not empty. -/
theorem classifyEmptyPage_ne_nil (html : Text) (status : ℕ) :
    classifyEmptyPage charRefs html status≠some [] := by
  unfold classifyEmptyPage
  dsimp only
  repeat' split
  all_goals
    intro h
    cases h

/-- The page classifier of the scanner, which never raises. -/
def pureClassify (charRefs : Text → Text) (page : PageCapture) : Except Text (Option Text) :=
  .ok (classifyEmptyPage charRefs page.html page.status)

/-- With the page classifier of the scanner, a captured page is scanned as
without an exception of the classifier. -/
theorem scanCaptured_pure (days : Option ℤ) (page : PageCapture) :
    scanCaptured domain (pureClassify charRefs) ai days page=
      scanPage charRefs domain ai days page := by
  rw [scanCaptured,scanPage,pureClassify]
  cases hempty : classifyEmptyPage charRefs page.html page.status with
  | none => rfl
  | some empty =>
    have hne : empty≠[] := fun h => classifyEmptyPage_ne_nil page.html page.status (h ▸ hempty)
    have hfilter : (some empty).filter (fun x => decide (x≠[]))=some empty :=
      Option.filter_some_pos (decide_eq_true hne)
    simp only [bind,Except.bind]
    rw [hfilter]
    rfl

/-- With the page classifier of the scanner, a scan is the one that never has
to handle an exception of it. -/
theorem scanOutcome_pure :
    scanOutcome domain age fetch (pureClassify charRefs) ai=
      scanBody charRefs domain age fetch ai := by
  cases age with
  | error name => rfl
  | ok days =>
    change (match days.filter (ageAutoSafeDays≤·) with
      | some n => _
      | none => _)=scanAged charRefs domain fetch ai days
    rw [scanAged.eq_def]
    cases days.filter (ageAutoSafeDays≤·) with
    | some n => rfl
    | none =>
      cases fetch with
      | error name => rfl
      | ok capture =>
        cases capture with
        | none => rfl
        | some page => exact scanCaptured_pure days page

/-- With the page classifier of the scanner, a scan leaves the databases as
its model without an exception of the classifier does. -/
theorem runOutcome_pure {after : Stores}
    (h : runOutcome domain age fetch (pureClassify charRefs) ai cfg now stores set row promote
      handlerSet=.ok after) :
    runOne charRefs domain age fetch ai cfg now stores set row promote handlerSet=after := by
  rw [runOutcome,scanOutcome_pure] at h
  rw [runOne]
  have hhandler {name : Text}
      (h : saveError cfg now domain stores (scanErrorReason name) handlerSet=.ok after) :
      handleScanError domain cfg now stores handlerSet name=after := by
    rw [handleScanError,h]
  cases hbody : scanBody charRefs domain age fetch ai with
  | error name =>
    rw [hbody] at h
    exact hhandler h
  | ok call =>
    rw [hbody] at h
    change (match perform domain cfg now stores set row promote call with
      | .ok after => Except.ok after
      | .error name => saveError cfg now domain stores (scanErrorReason name) handlerSet)=_ at h
    cases set with
    | error name => cases call <;> exact hhandler h
    | ok done => cases call <;> exact Except.ok.inj h

end Pure

section Settled

variable (domain : Text) (age : Except Text (Option ℤ)) (fetch : Except Text (Option PageCapture))
  (classify : PageCapture → Except Text (Option Text)) (ai : AIRequest → Except Text ScanVerdict)
  (cfg : Config) (now : ℕ) (stores : Stores) (row promote : Bool)

/-- A scan whose Redis writes are carried out is its last call. -/
theorem runOutcome_eq_perform :
    runOutcome domain age fetch classify ai cfg now stores (.ok ()) row promote (.ok ())=
      perform domain cfg now stores (.ok ()) row promote
        (finalPersist domain age fetch classify ai) := by
  rw [runOutcome,finalPersist]
  cases scanOutcome domain age fetch classify ai with
  | error name => rfl
  | ok call => cases call <;> rfl

/-- The entry that the last call of a scan stores under its domain. -/
def finalEntry (cfg : Config) (now : ℕ) : Persist → ExpiringStores.Expiring CachedJson
  | .save verdict => ⟨savedPayload verdict,now+pickTtl cfg verdict.verdict⟩
  | .saveError reason => ⟨errorPayload reason,now+cfg.unknownTtl⟩

/-- A call that Redis carries out returns, stores its entry, and inserts no
other row than the one of a confident scam. -/
theorem perform_settles (call : Persist) :
    ∃ after, perform domain cfg now stores (.ok ()) row promote call=.ok after ∧
      after.redis.verdicts.lookup domain=some (finalEntry cfg now call) ∧
      ∀ other∈after.db.blocklistSeed, other∉stores.db.blocklistSeed →
        other=domain ∧ ∃ verdict, call=.save verdict ∧ confirmsScam verdict=true := by
  cases call with
  | saveError reason =>
    exact ⟨_,rfl,
      (lookup_saveErrorCache cfg now domain domain stores.redis reason).trans (if_pos rfl),
      fun other hafter hbefore => absurd hafter hbefore⟩
  | save verdict =>
    refine ⟨_,rfl,(lookup_saveCache cfg now domain domain stores.redis verdict).trans (if_pos rfl),
      fun other hafter hbefore => ?_⟩
    let db := if row then stores.db.upsertVerdict domain verdict else stores.db
    have hrow : other∉db.blocklistSeed := by cases row <;> exact hbefore
    cases promote with
    | false => exact absurd hafter hrow
    | true =>
      change other∈(savePromote domain db verdict).blocklistSeed at hafter
      rw [savePromote] at hafter
      by_cases hscam : confirmsScam verdict=true
      · rw [if_pos hscam] at hafter
        exact ⟨(KeyedTables.mem_insertIgnore.mp hafter).resolve_right hrow,verdict,rfl,hscam⟩
      · rw [if_neg hscam] at hafter
        exact absurd hafter hrow

/-- Whatever the calls of a scan return or raise, as long as Redis carries its
writes out: the scan ends without an exception and leaves a final verdict under
its domain for the time of its class, the one of unknown domains after an
error. A blocklist row is new only if it is the one of the domain and the
stored verdict a scam with a confidence of at least 70. -/
theorem runOutcome_settles :
    ∃ after entry severity,
      runOutcome domain age fetch classify ai cfg now stores (.ok ()) row promote (.ok ())=
        .ok after ∧
      after.redis.verdicts.lookup domain=some entry ∧
      entry.value.verdict=some (ScanClass.kind severity) ∧
      entry.deadline=now+pickTtl cfg severity ∧
      (∀ name, scanOutcome domain age fetch classify ai=.error name →
        entry.deadline=now+cfg.unknownTtl) ∧
      ∀ other∈after.db.blocklistSeed, other∉stores.db.blocklistSeed →
        other=domain ∧ severity=.scam ∧ ∃ n∈entry.value.confidence, 70≤n := by
  obtain ⟨after,hafter,hentry,hrows⟩ := perform_settles domain cfg now stores row promote
    (finalPersist domain age fetch classify ai)
  refine ⟨after,_,(finalPersist domain age fetch classify ai).severity,
    (runOutcome_eq_perform domain age fetch classify ai cfg now stores row promote).trans hafter,
    hentry,?_,?_,fun name hname => ?_,fun other hother hnew => ?_⟩
  · cases finalPersist domain age fetch classify ai <;> rfl
  · cases finalPersist domain age fetch classify ai <;> rfl
  · rw [finalPersist,hname]
    rfl
  · obtain ⟨he,verdict,hcall,hscam⟩ := hrows other hother hnew
    obtain ⟨hverdict,hconfidence⟩ := Bool.and_eq_true_iff.mp hscam
    rw [hcall]
    exact ⟨he,of_decide_eq_true hverdict,verdict.confidence,rfl,of_decide_eq_true hconfidence⟩

end Settled

end ScamLens.ScanOutcomes
