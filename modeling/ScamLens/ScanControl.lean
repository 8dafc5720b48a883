import ScamLens.ScanWorker

/-!
# The control endpoint next to the worker

The endpoint repeats the scan of the worker for one domain and reports what it
found: it fetches first, persists nothing when it has no page or no answer of
the model, and looks the age up only for the report. Its verdict is that of
the worker exactly where the age rules of the worker have no effect on it.
-/

namespace ScamLens.ScanControl

open Heuristics PythonText Resolver ScanVerdicts ScanWorker Tables VerdictStore

/-- `_apply_floor` -/
def applyFloor (verdict : ScanVerdict) (heuristics : HeuristicReport) (domain : Text) :
    ScanVerdict :=
  let floor := severityFloor heuristics domain
  if floor.1.rank≤verdict.verdict.rank then verdict
  else
    { verdict := floor.1
      riskScore := max verdict.riskScore (if floor.1=.scam then 90 else 65)
      confidence := max verdict.confidence 70
      reasons := verdict.reasons++floor.2++["promoted by static-scan heuristics".toList]
      mimicsBrand := verdict.mimicsBrand
      model := verdict.model }

/-- The page as a report shows it. -/
structure PageReport where
  /-- Address the browser ended at. -/
  finalUrl : Text
  /-- Status of the response. -/
  status : ℕ
  /-- Title of the page. -/
  title : Text
  /-- Beginning of the page. -/
  htmlExcerpt : Text
  /-- Image of the page. -/
  screenshot : List UInt8

/-- What a report shows of a page. -/
def pageReport (page : PageCapture) (excerpt : ℕ) : PageReport where
  finalUrl := page.finalUrl
  status := page.status
  title := page.title
  htmlExcerpt := page.html.take excerpt
  screenshot := page.screenshotPng

/-- The answers of the endpoint to a domain. -/
inductive ScanResponse where
  | notFetched (domain error : Text)
  | emptyPage (domain emptyReason : Text) (page : PageReport)
  | scanned (domain : Text) (page : PageReport) (verdict : ScanVerdict) (ageDays : Option ℤ)

section Scan

variable (charRefs : Text → Text) (domain : Text) (age : Except Text (Option ℤ))
  (fetch : Except Text (Option PageCapture)) (ai : AIRequest → Except Text ScanVerdict)
  (stored : Except Text Unit)

/-- `scan` on a captured page. -/
def reportPage (page : PageCapture) : Option Persist×Except Text ScanResponse :=
  match classifyEmptyPage charRefs page.html page.status with
  | some empty =>
    (some (.saveError empty),stored.map fun _ => .emptyPage domain empty (pageReport page 1000))
  | none =>
    match ai (aiRequest domain page) with
    | .error name => (none,.error name)
    | .ok answer =>
      let verdict := applyFloor answer (analyze page.html domain) domain
      (some (.save verdict),stored.bind fun _ => age.map fun days =>
        .scanned domain (pageReport page 8000) verdict days)

/-- `scan` from the domain on: the persisting call it makes, if any, and its
answer or the exception it ends in, given the outcome of the persisting call. -/
def scan : Option Persist×Except Text ScanResponse :=
  match fetch with
  | .error name => (none,.error name)
  | .ok none => (none,.ok (.notFetched domain
      "Playwright fetch failed (timeout, DNS, or hostile TLS)".toList))
  | .ok (some page) => reportPage charRefs domain age ai stored page

/-- The persisting call of the endpoint. -/
def controlPersist : Option Persist := (scan charRefs domain age fetch ai stored).1

end Scan

/-- Both copies of the floor are one function. -/
theorem applyFloor_eq : applyFloor=applyHeuristicFloor := rfl

/-- The age rules of the worker have no effect on a severity: an old domain is
safe already, a brand-new one is not safe, and a failed lookup, which ends as
an error marker, meets a suspicious one. -/
def AgeNeutral (age : Except Text (Option ℤ)) (rank : ℕ) : Prop :=
  match age with
  | .error _ => rank=1
  | .ok days => (autoSafe days=true → rank=0) ∧ (brandNew days=true → rank≠0)

/-- The condition under which both scans persist one severity: a page was
captured, and either it has no content and the age rule does not call the
domain safe, or the model answered and the ages leave the larger of its
severity and the floor alone. -/
def SameScan (charRefs : Text → Text) (domain : Text) (age : Except Text (Option ℤ))
    (fetch : Except Text (Option PageCapture)) (ai : AIRequest → Except Text ScanVerdict) : Prop :=
  ∃ page, fetch=.ok (some page) ∧
    if (classifyEmptyPage charRefs page.html page.status).isSome then
      ∀ days, age=.ok days → autoSafe days=false
    else ∃ answer, ai (aiRequest domain page)=.ok answer ∧
      AgeNeutral age (max answer.verdict.rank
        (severityFloor (analyze page.html domain) domain).1.rank)

section Agreement

variable {charRefs : Text → Text} {domain : Text} {age : Except Text (Option ℤ)}
  {fetch : Except Text (Option PageCapture)} {ai : AIRequest → Except Text ScanVerdict}

/-- The age rule persists safe whatever the page is. -/
theorem workerPersist_autoSafe {days : Option ℤ} (h : autoSafe days=true) :
    (workerPersist charRefs domain (.ok days) fetch ai).severity=.safe := by
  obtain ⟨n,hn⟩ := scanAged_old h fetch ai
  rw [workerPersist,scanBody,hn]
  rfl

/-- On a page without content the worker persists suspicious unless the age
rule calls the domain safe. -/
theorem workerPersist_empty {page : PageCapture}
    (hempty : (classifyEmptyPage charRefs page.html page.status).isSome=true) :
    (workerPersist charRefs domain age (.ok (some page)) ai).severity=.suspicious ↔
      ∀ days, age=.ok days → autoSafe days=false := by
  obtain ⟨empty,he⟩ := Option.isSome_iff_exists.mp hempty
  cases age with
  | error name => exact ⟨fun _ days h => (by cases h),fun _ => rfl⟩
  | ok days =>
    cases hs : autoSafe days with
    | true =>
      rw [workerPersist_autoSafe hs]
      refine ⟨fun h => (by cases h),fun h => ?_⟩
      have hn := h days rfl
      rw [hs] at hn
      cases hn
    | false =>
      refine ⟨fun _ days' hd => Except.ok.inj hd ▸ hs,fun _ => ?_⟩
      rw [workerPersist,scanBody,scanAged_captured hs,scanPage,he]
      rfl

/-- On a page with content the worker persists the larger of answer and floor
exactly when the age rules leave it alone. -/
theorem workerPersist_content {page : PageCapture} {answer : ScanVerdict}
    (hempty : classifyEmptyPage charRefs page.html page.status=none)
    (hai : ai (aiRequest domain page)=.ok answer) :
    (workerPersist charRefs domain age (.ok (some page)) ai).severity=
        (applyFloor answer (analyze page.html domain) domain).verdict ↔
      AgeNeutral age (max answer.verdict.rank
        (severityFloor (analyze page.html domain) domain).1.rank) := by
  rw [applyFloor_eq,←rank_inj,←applyHeuristicFloor_rank]
  cases age with
  | error name => exact eq_comm
  | ok days =>
    cases hs : autoSafe days with
    | true =>
      rw [workerPersist_autoSafe hs,AgeNeutral,hs,brandNew_of_autoSafe hs]
      refine ⟨fun h => ⟨fun _ => h.symm,fun hn => (by cases hn)⟩,fun h => (h.1 rfl).symm⟩
    | false =>
      have hsave : (workerPersist charRefs domain (.ok days) (.ok (some page)) ai).severity=
          (bumpFresh days
            (applyHeuristicFloor answer (analyze page.html domain) domain)).verdict := by
        rw [workerPersist,scanBody,scanAged_captured hs,scanPage,hempty,hai]
        rfl
      rw [hsave,bumpFresh_rank,AgeNeutral,hs]
      refine ⟨fun h => ⟨fun ho => (by cases ho),fun hn => ?_⟩,fun h => ?_⟩
      · rw [if_pos hn] at h
        omega
      · split
        · rename_i hn
          have hr := h.2 hn
          omega
        · rfl

/-- A captured page is the page the condition is about. -/
theorem sameScan_captured {page : PageCapture} :
    SameScan charRefs domain age (.ok (some page)) ai ↔
      if (classifyEmptyPage charRefs page.html page.status).isSome then
        ∀ days, age=.ok days → autoSafe days=false
      else ∃ answer, ai (aiRequest domain page)=.ok answer ∧
        AgeNeutral age (max answer.verdict.rank
          (severityFloor (analyze page.html domain) domain).1.rank) := by
  refine ⟨fun h => ?_,fun h => ⟨page,rfl,h⟩⟩
  obtain ⟨p,hp,h⟩ := h
  rwa [Option.some.inj (Except.ok.inj hp)]

/-- The endpoint persists the severity that the worker persists exactly when
a page was captured and the age rules have no effect on it. -/
theorem controlPersist_eq_workerPersist_iff (stored : Except Text Unit) :
    (controlPersist charRefs domain age fetch ai stored).map Persist.severity=
        some (workerPersist charRefs domain age fetch ai).severity ↔
      SameScan charRefs domain age fetch ai := by
  cases fetch with
  | error name =>
    refine iff_of_false (Option.some_ne_none _).symm fun h => ?_
    obtain ⟨page,hp,-⟩ := h
    cases hp
  | ok capture =>
    cases capture with
    | none =>
      refine iff_of_false (Option.some_ne_none _).symm fun h => ?_
      obtain ⟨page,hp,-⟩ := h
      cases hp
    | some page =>
      change (reportPage charRefs domain age ai stored page).1.map Persist.severity=_ ↔ _
      rw [sameScan_captured,reportPage]
      cases hempty : classifyEmptyPage charRefs page.html page.status with
      | some empty =>
        have hsome : (classifyEmptyPage charRefs page.html page.status).isSome=true := by
          rw [hempty]
          rfl
        rw [if_pos Option.isSome_some,←workerPersist_empty hsome,eq_comm]
        exact Option.some_inj
      | none =>
        rw [if_neg (by simp only [Option.isSome_none,Bool.false_eq_true,not_false_eq_true])]
        cases hai : ai (aiRequest domain page) with
        | error name =>
          refine iff_of_false (Option.some_ne_none _).symm fun h => ?_
          obtain ⟨answer,ha,-⟩ := h
          cases ha
        | ok answer =>
          have hagree : Option.some (applyFloor answer (analyze page.html domain) domain).verdict=
              some (workerPersist charRefs domain age (.ok (some page)) ai).severity ↔ _ :=
            (Option.some_inj.trans eq_comm).trans (workerPersist_content hempty hai)
          refine hagree.trans ⟨fun h => ⟨answer,rfl,h⟩,fun h => ?_⟩
          obtain ⟨other,ho,h⟩ := h
          rwa [Except.ok.inj ho]

/-- A page of plain text on which the static scan finds nothing. -/
def plainPage : PageCapture := ⟨"http://a.bc/".toList,200,List.replicate 200 'a',[],[]⟩

/-- On a domain registered two days ago the worker persists suspicious where
the endpoint persists the safe answer of the model. -/
theorem controlPersist_ne_workerPersist_fresh :
    (controlPersist id "a.bc".toList (.ok (some 2)) (.ok (some plainPage))
        (fun _ => .ok (modelVerdict .safe)) (.ok ())).map Persist.severity≠
      some (workerPersist id "a.bc".toList (.ok (some 2)) (.ok (some plainPage))
        (fun _ => .ok (modelVerdict .safe))).severity := by
  decide +kernel

end Agreement

end ScamLens.ScanControl
