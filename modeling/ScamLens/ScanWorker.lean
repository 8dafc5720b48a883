import ScamLens.Heuristics
import ScamLens.VerdictStore

/-!
# The scan worker and the severity floor

A scan looks up the age of the domain, fetches the page, sorts out pages
without content, asks the model, raises its answer to the floor of the static
scan, and persists the result. The outcomes of the calls that leave the
process are arguments; an exception is the name of its type. What a scan
leaves in Redis has the rank of the floor at least, except on pages without
content, whose marker is always suspicious.
-/

namespace ScamLens.ScanWorker

open Heuristics PythonText Resolver ScanVerdicts Tables VerdictCache VerdictStore

/-- The fields of a `PageCapture` that a scan or its report reads. -/
structure PageCapture where
  /-- Address the browser ended at. -/
  finalUrl : Text
  /-- Status of the response, 0 when there was none. -/
  status : ℕ
  /-- The page. -/
  html : Text
  /-- Image of the page. -/
  screenshotPng : List UInt8
  /-- Title of the page. -/
  title : Text
  deriving DecidableEq

/-- The arguments of `AIClient.scan`. -/
structure AIRequest where
  /-- Scanned domain. -/
  domain : Text
  /-- The page. -/
  html : Text
  /-- Image of the page. -/
  screenshotPng : List UInt8
  /-- Summary of the static scan. -/
  heuristicSummary : Text

/-- A call of the persistence layer that ends a scan. -/
inductive Persist where
  | save (verdict : ScanVerdict)
  | saveError (reason : Text)
  deriving DecidableEq

/-- The severity a persisting call stores. -/
def Persist.severity : Persist → ScanClass
  | .save verdict => verdict.verdict
  | .saveError _ => .suspicious

/-- `AGE_AUTO_SAFE_DAYS` -/
def ageAutoSafeDays : ℤ := 365

/-- `age.known and age.days >= AGE_AUTO_SAFE_DAYS` -/
def autoSafe (days : Option ℤ) : Bool := days.any fun n => ageAutoSafeDays≤n

/-- `age.known and age.days is not None and age.days < 14` -/
def brandNew (days : Option ℤ) : Bool := days.any fun n => n<14

/-- The note on the age of a domain. -/
def ageReason (days : ℤ) : Text :=
  "domain registered ".toList++ofInt days++" days ago".toList

/-- The verdict of the age rule. -/
def agedVerdict (days : ℤ) : ScanVerdict where
  verdict := .safe
  riskScore := 10
  confidence := 60
  reasons := [ageReason days]
  mimicsBrand := none
  model := "rdap-age".toList

/-- `_apply_heuristic_floor` -/
def applyHeuristicFloor (verdict : ScanVerdict) (heuristics : HeuristicReport) (domain : Text) :
    ScanVerdict :=
  let floor := severityFloor heuristics domain
  if floor.1.rank≤verdict.verdict.rank then verdict
  else
    { verdict := floor.1
      riskScore := max verdict.riskScore (if floor.1=.scam then 90 else 65)
      confidence := max verdict.confidence 70
      reasons := verdict.reasons++floor.2++["promoted by static-scan heuristics".toList]
      mimicsBrand := verdict.mimicsBrand
      model := verdict.model }

/-- The bump of a safe verdict on a brand-new domain. -/
def bumpFresh (days : Option ℤ) (verdict : ScanVerdict) : ScanVerdict :=
  if brandNew days && verdict.verdict=.safe then
    { verdict := .suspicious
      riskScore := max verdict.riskScore 55
      confidence := max verdict.confidence 40
      reasons := verdict.reasons++[ageReason (days.getD 0)]
      mimicsBrand := verdict.mimicsBrand
      model := verdict.model }
  else verdict

section Scan

variable (charRefs : Text → Text) (domain : Text) (age : Except Text (Option ℤ))
  (fetch : Except Text (Option PageCapture)) (ai : AIRequest → Except Text ScanVerdict)

/-- What the model is asked about a page. -/
def aiRequest (page : PageCapture) : AIRequest where
  domain := domain
  html := page.html
  screenshotPng := page.screenshotPng
  heuristicSummary := renderForPrompt (analyze page.html domain)

/-- The body of `Worker._run_one` on a captured page. -/
def scanPage (days : Option ℤ) (page : PageCapture) : Except Text Persist :=
  match classifyEmptyPage charRefs page.html page.status with
  | some empty => .ok (.saveError ("empty page: ".toList++empty))
  | none => (ai (aiRequest domain page)).map fun verdict =>
      .save (bumpFresh days (applyHeuristicFloor verdict (analyze page.html domain) domain))

/-- The body of `Worker._run_one` once the age is known. -/
def scanAged (days : Option ℤ) : Except Text Persist :=
  match days.filter (ageAutoSafeDays≤·) with
  | some n => .ok (.save (agedVerdict n))
  | none =>
    match fetch with
    | .error name => .error name
    | .ok none => .ok (.saveError "fetch failed".toList)
    | .ok (some page) => scanPage charRefs domain ai days page

/-- The body of `Worker._run_one` up to the call that ends it, or the
exception that its handler catches. -/
def scanBody : Except Text Persist :=
  match age with
  | .error name => .error name
  | .ok days => scanAged charRefs domain fetch ai days

/-- The reason the exception handler records. -/
def scanErrorReason (name : Text) : Text := "scan error: ".toList++name

/-- The persisting call a scan ends in when the call itself succeeds. -/
def workerPersist : Persist :=
  match scanBody charRefs domain age fetch ai with
  | .ok persist => persist
  | .error name => .saveError (scanErrorReason name)

variable (cfg : Config) (now : ℕ) (stores : Stores) (set : Except Text Unit)
  (row promote : Bool) (handlerSet : Except Text Unit)

/-- The handler of `Worker._run_one`: its own SET may raise once more, and
then nothing is written. -/
def handleScanError (name : Text) : Stores :=
  match saveError cfg now domain stores (scanErrorReason name) handlerSet with
  | .ok stores => stores
  | .error _ => stores

/-- `Worker._run_one`: the two databases after a scan, given the outcomes of
its first SET, of the two Postgres commands and of the handler's SET. -/
def runOne : Stores :=
  match scanBody charRefs domain age fetch ai with
  | .error name => handleScanError domain cfg now stores handlerSet name
  | .ok (.saveError reason) =>
    match saveError cfg now domain stores reason set with
    | .ok stores => stores
    | .error name => handleScanError domain cfg now stores handlerSet name
  | .ok (.save verdict) =>
    match save cfg now domain stores verdict set row promote with
    | .ok stores => stores
    | .error name => handleScanError domain cfg now stores handlerSet name

end Scan

/-- The floor raises the rank of a verdict to the rank of the static scan. -/
theorem applyHeuristicFloor_rank (verdict : ScanVerdict) (heuristics : HeuristicReport)
    (domain : Text) :
    (applyHeuristicFloor verdict heuristics domain).verdict.rank=
      max verdict.verdict.rank (severityFloor heuristics domain).1.rank := by
  rw [applyHeuristicFloor]
  split
  · rename_i h
    exact (max_eq_left h).symm
  · rename_i h
    exact (max_eq_right (Nat.le_of_lt (Nat.lt_of_not_le h))).symm

/-- The bump raises the rank of a verdict on a brand-new domain to suspicious. -/
theorem bumpFresh_rank (days : Option ℤ) (verdict : ScanVerdict) :
    (bumpFresh days verdict).verdict.rank=
      if brandNew days then max verdict.verdict.rank 1 else verdict.verdict.rank := by
  rw [bumpFresh]
  split
  · rename_i h
    obtain ⟨hnew,hsafe⟩ := Bool.and_eq_true_iff.mp h
    rw [if_pos hnew,of_decide_eq_true hsafe]
    rfl
  · rename_i h
    split
    · rename_i hnew
      have hr : verdict.verdict.rank≠0 := by
        intro hz
        rw [hnew,decide_eq_true (rank_eq_zero_iff.mp hz)] at h
        exact h rfl
      omega
    · rfl

/-- An age that the age rule does not settle leads on to the fetch. -/
theorem scanAged_captured {charRefs : Text → Text} {domain : Text} {days : Option ℤ}
    (hage : autoSafe days=false) (page : PageCapture) (ai : AIRequest → Except Text ScanVerdict) :
    scanAged charRefs domain (.ok (some page)) ai days=scanPage charRefs domain ai days page := by
  have hyoung : days.filter (ageAutoSafeDays≤·)=none := by
    rw [Option.filter_eq_none_iff]
    intro n hn hle
    rw [hn,autoSafe,Option.any_some,hle] at hage
    cases hage
  rw [scanAged,hyoung]

/-- An age that the age rule settles ends the scan. -/
theorem scanAged_old {charRefs : Text → Text} {domain : Text} {days : Option ℤ}
    (hage : autoSafe days=true) (fetch : Except Text (Option PageCapture))
    (ai : AIRequest → Except Text ScanVerdict) :
    ∃ n, scanAged charRefs domain fetch ai days=.ok (.save (agedVerdict n)) := by
  cases days with
  | none => cases hage
  | some n =>
    have hold : (some n).filter (ageAutoSafeDays≤·)=some n :=
      Option.filter_eq_some_iff.mpr ⟨rfl,hage⟩
    exact ⟨n,by rw [scanAged.eq_def,hold]⟩

/-- An old domain is not brand-new. -/
theorem brandNew_of_autoSafe {days : Option ℤ} (h : autoSafe days=true) : brandNew days=false := by
  cases days with
  | none => cases h
  | some n =>
    have hold : ageAutoSafeDays≤n := of_decide_eq_true h
    exact decide_eq_false (not_lt.mpr (le_trans (by decide) hold))

/-- A verdict of the given severity is stored under a domain. -/
def Leaves (redis : Redis) (domain : Text) (severity : ScanClass) : Prop :=
  ∃ entry, redis.verdicts.lookup domain=some entry ∧ entry.value.verdict=some severity.kind

/-- One key stores one severity. -/
theorem Leaves.unique {redis : Redis} {domain : Text} {a b : ScanClass}
    (ha : Leaves redis domain a) (hb : Leaves redis domain b) : a=b := by
  obtain ⟨entry,hentry,hv⟩ := ha
  obtain ⟨other,hother,hw⟩ := hb
  have he : entry=other := Option.some.inj (hentry.symm.trans hother)
  have hk : a.kind=b.kind := Option.some.inj (hv.symm.trans (he ▸ hw))
  cases a <;> cases b <;> first | rfl | cases hk

/-- An accepted save leaves its severity. -/
theorem leaves_saveCache (cfg : Config) (now : ℕ) (domain : Text) (redis : Redis)
    (v : ScanVerdict) : Leaves (saveCache cfg now domain redis v) domain v.verdict :=
  ⟨_,(lookup_saveCache cfg now domain domain redis v).trans (if_pos rfl),rfl⟩

/-- An accepted error marker leaves suspicious. -/
theorem leaves_saveErrorCache (cfg : Config) (now : ℕ) (domain : Text) (redis : Redis)
    (reason : Text) : Leaves (saveErrorCache cfg now domain redis reason) domain .suspicious :=
  ⟨_,(lookup_saveErrorCache cfg now domain domain redis reason).trans (if_pos rfl),rfl⟩

section Floor

variable (charRefs : Text → Text) (domain : Text) (page : PageCapture)
  (ai : AIRequest → ScanVerdict) (cfg : Config) (now : ℕ) (stores : Stores)
  (set : Except Text Unit) (row promote : Bool) (handlerSet : Except Text Unit)

/-- On a page with content a scan leaves at least the rank of the static scan;
a page without content, or a verdict that Redis refused, leaves the suspicious
marker. -/
theorem runOne_respects_floor {days : Option ℤ} (hage : autoSafe days=false) :
    let out := runOne charRefs domain (.ok days) (.ok (some page))
      (fun request => .ok (ai request)) cfg now stores set row promote handlerSet
    (set=.ok () → ∃ severity, Leaves out.redis domain severity ∧
      (classifyEmptyPage charRefs page.html page.status=none →
        (severityFloor (analyze page.html domain) domain).1.rank ≤ severity.rank) ∧
      (classifyEmptyPage charRefs page.html page.status≠none → severity=.suspicious)) ∧
    (∀ name, set=.error name → handlerSet=.ok () → Leaves out.redis domain .suspicious) := by
  have hbody : scanBody charRefs domain (.ok days) (.ok (some page))
      (fun request => .ok (ai request))=
        scanPage charRefs domain (fun request => .ok (ai request)) days page :=
    scanAged_captured hage page _
  dsimp only
  rw [runOne,hbody,scanPage]
  cases hempty : classifyEmptyPage charRefs page.html page.status with
  | some empty =>
    refine ⟨fun hset => ⟨.suspicious,?_,fun h => (by cases h),fun _ => rfl⟩,fun name hset hh => ?_⟩
    · rw [hset]
      exact leaves_saveErrorCache cfg now domain stores.redis _
    · rw [hset,hh]
      exact leaves_saveErrorCache cfg now domain stores.redis _
  | none =>
    let final := bumpFresh days
      (applyHeuristicFloor (ai (aiRequest domain page)) (analyze page.html domain) domain)
    have hrank : (severityFloor (analyze page.html domain) domain).1.rank≤final.verdict.rank := by
      rw [bumpFresh_rank,applyHeuristicFloor_rank]
      split <;> omega
    refine ⟨fun hset => ⟨final.verdict,?_,fun _ => hrank,fun h => absurd rfl h⟩,
      fun name hset hh => ?_⟩
    · rw [hset]
      exact leaves_saveCache cfg now domain stores.redis final
    · rw [hset,hh]
      exact leaves_saveErrorCache cfg now domain stores.redis _

end Floor

section NotFound

/-- A page that asks for a wallet phrase, served with the given status and
followed by the given text. -/
def phrasePage (status : ℕ) (text : Text) : PageCapture where
  finalUrl := "http://a.bc/".toList
  status := status
  html := "seed phrase ".toList++text
  screenshotPng := []
  title := []

/-- An answer of the model. -/
def modelVerdict (severity : ScanClass) : ScanVerdict := ⟨severity,50,80,[],none,[]⟩

/-- Empty databases. -/
def emptyStores : Stores := ⟨Redis.init,Database.init⟩

/-- The page with enough text on it ends as scam although the model calls it
safe. -/
theorem runOne_respects_floor_phrase :
    Leaves (runOne id "a.bc".toList (.ok none)
      (.ok (some (phrasePage 200 (List.replicate 200 'a'))))
      (fun _ => .ok (modelVerdict .safe)) defaultConfig 0 emptyStores (.ok ()) true true
      (.ok ())).redis "a.bc".toList .scam := by
  obtain ⟨severity,hleaves,hfloor,-⟩ := (runOne_respects_floor id "a.bc".toList
    (phrasePage 200 (List.replicate 200 'a')) (fun _ => modelVerdict .safe) defaultConfig 0
    emptyStores (.ok ()) true true (.ok ()) (show autoSafe none=false from rfl)).1 rfl
  have hrank : 2 ≤ severity.rank := le_trans (by decide) (hfloor (by decide +kernel))
  cases severity with
  | safe => exact absurd hrank (by decide)
  | suspicious => exact absurd hrank (by decide)
  | scam => exact hleaves

/-- Served as not found, the page ends as suspicious although its floor is
scam and the model calls it scam. -/
theorem runOne_below_floor_not_found :
    ¬∃ severity, Leaves (runOne id "a.bc".toList (.ok none) (.ok (some (phrasePage 404 [])))
        (fun _ => .ok (modelVerdict .scam)) defaultConfig 0 emptyStores (.ok ()) true true
        (.ok ())).redis "a.bc".toList severity ∧
      (severityFloor (analyze (phrasePage 404 []).html "a.bc".toList) "a.bc".toList).1.rank≤
        severity.rank := by
  intro h
  obtain ⟨severity,hleaves,hrank⟩ := h
  have hmarker : Leaves (runOne id "a.bc".toList (.ok none) (.ok (some (phrasePage 404 [])))
      (fun _ => .ok (modelVerdict .scam)) defaultConfig 0 emptyStores (.ok ()) true true
      (.ok ())).redis "a.bc".toList .suspicious := leaves_saveErrorCache _ _ _ _ _
  rw [hleaves.unique hmarker] at hrank
  exact absurd hrank (by decide)

end NotFound

end ScamLens.ScanWorker
