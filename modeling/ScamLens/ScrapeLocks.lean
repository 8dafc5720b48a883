import Mathlib.Data.Int.Notation
import Mathlib.Order.Basic
import ScamLens.EventRuns
import ScamLens.LockLeases
import ScamLens.PythonText

/-!
# The scrape lock

Manual requests and the cron loop of the scraper share one Redis lock with a
time to live. A run has a window of its own length: the duration a request
asks for is not bounded, and one source has no deadline at all. The lock
keeps the windows apart as long as nobody claims it while an unreleased run
has outlived its key.
-/

namespace ScamLens.ScrapeLocks

open EventRuns ExpiringStores LockLeases PythonText

/-- Sources of a scrape. -/
inductive ScrapeSource where
  | threads
  | reddit
  | urlhaus
  deriving DecidableEq

/-- The source of a name. -/
def sourceNamed (name : Text) : Option ScrapeSource :=
  if name="threads".toList then some .threads
  else if name="reddit".toList then some .reddit
  else if name="urlhaus".toList then some .urlhaus
  else none

/-- The name of a source. -/
def ScrapeSource.name : ScrapeSource → Text
  | .threads => "threads".toList
  | .reddit => "reddit".toList
  | .urlhaus => "urlhaus".toList

/-- The settings of the scraper that decide what runs, and when. -/
structure ScraperConfig where
  /-- Token for the Threads source, empty when there is none. -/
  threadsToken : Text
  /-- Minutes of a window whose request names no duration. -/
  durationMinutes : ℤ
  /-- Hours from one pass of the cron loop to the next. -/
  intervalHours : ℤ

/-- `LOCK_TTL` -/
def lockTtl : ℕ := 90*60

/-- The fields of a `/run` body that the handler and the deadline read. -/
structure RunRequest where
  /-- `"source"`. -/
  source : Option Text
  /-- `"duration_minutes"`. -/
  durationMinutes : Option ℤ
  deriving DecidableEq

/-- The answers of `/run`. -/
inductive RunResponse where
  | unknownSource (name : Text)
  | notConfigured
  | busy
  | started (source : ScrapeSource)
  deriving DecidableEq

/-- Status code of an answer. -/
def RunResponse.status : RunResponse → ℕ
  | .unknownSource _ => 400
  | .notConfigured => 503
  | .busy => 409
  | .started _ => 200

/-- JSON object of an answer. -/
def RunResponse.body : RunResponse → List (Text×Text)
  | .unknownSource name => [("error".toList,"unknown source: ".toList++name)]
  | .notConfigured =>
    [("error".toList,"THREADS_ACCESS_TOKEN not configured on the scraper".toList)]
  | .busy => [("status".toList,"busy".toList),
      ("message".toList,"A scrape is already running".toList)]
  | .started source => [("status".toList,"started".toList),("source".toList,source.name)]

/-- Where a run is between its claim and its release. -/
inductive RunPhase where
  /-- The lock is claimed, `run_window` is not called yet. -/
  | claimed
  /-- `run_window` is in progress, until the deadline if the source has one. -/
  | window (deadline : Option ℤ)
  /-- `run_window` has returned or raised, the lock is not deleted yet. -/
  | over
  deriving DecidableEq

/-- A run whose claim was granted. -/
structure ScrapeRun where
  /-- Serial number of its claim. -/
  id : ℕ
  /-- Source that it scrapes. -/
  source : ScrapeSource
  /-- Minutes that its request asks for. -/
  durationMinutes : Option ℤ
  /-- Where it is. -/
  phase : RunPhase
  deriving DecidableEq

/-- What lies under the lock key. -/
structure LockEntry where
  /-- The stored string. -/
  value : Text
  /-- The run that has set it, which the string does not tell. -/
  run : ℕ
  deriving DecidableEq

/-- Where the cron loop is. -/
inductive CronPhase where
  /-- About to claim the lock for a source, with the rest of the pass. -/
  | claiming (source : ScrapeSource) (rest : List ScrapeSource)
  /-- In the body of a claimed run. -/
  | waiting (run : ℕ) (rest : List ScrapeSource)
  /-- Between two passes. -/
  | sleeping (wakeAt : ℤ)
  deriving DecidableEq

/-- The scraper and its lock. -/
structure Scraper where
  /-- The current second. -/
  now : ℕ
  /-- The lock key. -/
  lock : Option (Expiring LockEntry)
  /-- Runs that are not released, in the order of their claims. -/
  runs : List ScrapeRun
  /-- Serial number of the next claim. -/
  nextRun : ℕ
  /-- The cron loop. -/
  cron : CronPhase

/-- What can happen. A run goes on for as long as its source yields items. -/
inductive Event where
  | tick (seconds : ℕ)
  | manual (request : RunRequest)
  | cron
  | start (run : ℕ)
  | item (run : ℕ) (more : Bool)
  | finish (run : ℕ)
  deriving DecidableEq

/-- `cron_sources` -/
def cronSources (cfg : ScraperConfig) : List ScrapeSource :=
  [.urlhaus,.reddit]++(if cfg.threadsToken=[] then [] else [.threads])

/-- The cron loop goes to its next source, or to sleep. -/
def nextCron (cfg : ScraperConfig) (now : ℕ) : List ScrapeSource → CronPhase
  | [] => .sleeping (now+max 60 (cfg.intervalHours*3600-cfg.durationMinutes*60))
  | source::rest => .claiming source rest

/-- `run_handler` up to its claim. -/
def runRequested (cfg : ScraperConfig) (request : RunRequest) : Except RunResponse ScrapeSource :=
  let given := request.source.getD []
  let name := lower (if given=[] then "threads".toList else given)
  match sourceNamed name with
  | none => .error (.unknownSource name)
  | some source =>
    if source=.threads ∧ cfg.threadsToken=[] then .error .notConfigured else .ok source

/-- `run_handler`, given whether the lock was claimed. -/
def runHandler (cfg : ScraperConfig) (request : RunRequest) (claimed : Bool) : RunResponse :=
  match runRequested cfg request with
  | .error response => response
  | .ok source => if claimed then .started source else .busy

/-- The second at which a window stops asking for items. -/
def deadlineOf (cfg : ScraperConfig) (now : ℕ) (r : ScrapeRun) : Option ℤ :=
  match r.source with
  | .urlhaus => none
  | .reddit => some (now+r.durationMinutes.getD cfg.durationMinutes*60)
  | .threads => some (now+r.durationMinutes.getD cfg.durationMinutes*60)

/-- A window sees the next item, and stops at the end of its source or at the
first item behind its deadline. -/
def afterItem (now : ℕ) (more : Bool) : RunPhase → RunPhase
  | .window none => if more then .window none else .over
  | .window (some deadline) =>
    if more ∧ (now : ℤ)<deadline then .window (some deadline) else .over
  | phase => phase

/-- `run_window` is called for a claimed run. -/
def afterStart (cfg : ScraperConfig) (now : ℕ) (r : ScrapeRun) : ScrapeRun :=
  if r.phase=.claimed then {r with phase := .window (deadlineOf cfg now r)} else r

/-- Rewrite the run of a number. -/
def updateRun (runs : List ScrapeRun) (id : ℕ) (f : ScrapeRun → ScrapeRun) : List ScrapeRun :=
  runs.map fun r => if r.id=id then f r else r

/-- The lock key is there for a reader. -/
def lockLive (s : Scraper) : Bool := s.lock.any fun entry => s.now<entry.deadline

/-- A claimed lock and its run; the key is not live. -/
def begin (s : Scraper) (value : Text) (source : ScrapeSource) (durationMinutes : Option ℤ) :
    Scraper :=
  { s with
    lock := some ⟨⟨value,s.nextRun⟩,s.now+lockTtl⟩
    runs := s.runs++[⟨s.nextRun,source,durationMinutes,.claimed⟩]
    nextRun := s.nextRun+1 }

/-- A manual request. -/
def manualStep (cfg : ScraperConfig) (s : Scraper) (request : RunRequest) : Scraper :=
  match runRequested cfg request with
  | .error _ => s
  | .ok source =>
    if lockLive s then s else begin s "manual".toList source request.durationMinutes

/-- The next action of the cron loop. -/
def cronStep (cfg : ScraperConfig) (s : Scraper) : Scraper :=
  match s.cron with
  | .claiming source rest =>
    if lockLive s then {s with cron := nextCron cfg s.now rest}
    else {begin s ("cron:".toList++source.name) source none with cron := .waiting s.nextRun rest}
  | .waiting _ _ => s
  | .sleeping wakeAt =>
    if wakeAt ≤ s.now then {s with cron := nextCron cfg s.now (cronSources cfg)} else s

/-- The `finally` block of a run: the lock key is deleted, whoever has set it. -/
def finishStep (cfg : ScraperConfig) (s : Scraper) (id : ℕ) : Scraper :=
  if s.runs.any (fun r => r.id=id ∧ r.phase=.over) then
    { s with
      lock := none
      runs := s.runs.filter (fun r => r.id≠id)
      cron := match s.cron with
        | .waiting run rest => if run=id then nextCron cfg s.now rest else .waiting run rest
        | cron => cron }
  else s

/-- One step of the scraper. -/
def step (cfg : ScraperConfig) (s : Scraper) : Event → Scraper
  | .tick seconds => {s with now := s.now+seconds}
  | .manual request => manualStep cfg s request
  | .cron => cronStep cfg s
  | .start id => {s with runs := updateRun s.runs id (afterStart cfg s.now)}
  | .item id more => {s with runs := updateRun s.runs id fun r =>
      {r with phase := afterItem s.now more r.phase}}
  | .finish id => finishStep cfg s id

/-- A scraper that has just started, on a Redis that may still hold the key of
an earlier process. -/
def boot (cfg : ScraperConfig) (now : ℕ) (left : Option (Expiring LockEntry)) : Scraper where
  now := now
  lock := left
  runs := []
  nextRun := 0
  cron := nextCron cfg now (cronSources cfg)

/-- The lock as a lease of runs. -/
def viewOf (s : Scraper) : LockView ℕ where
  now := s.now
  lock := s.lock.map fun entry => ⟨entry.value.run,entry.deadline⟩
  holders := s.runs.map (·.id)

/-- The event tries to claim the lock. -/
def claims (cfg : ScraperConfig) (s : Scraper) : Event → Bool
  | .manual request => (runRequested cfg request).isOk
  | .cron => match s.cron with
    | .claiming _ _ => true
    | .waiting _ _ => false
    | .sleeping _ => false
  | _ => false

/-- No event tries to claim the lock while an unreleased run has outlived its
lock key. -/
def Timely (cfg : ScraperConfig) (s : Scraper) (e : Event) : Prop :=
  claims cfg s e=true → s.runs=[] ∨ lockLive s=true

instance (cfg : ScraperConfig) (s : Scraper) (e : Event) : Decidable (Timely cfg s e) :=
  inferInstanceAs (Decidable (_ → _))

/-- Runs whose `run_window` is in progress. -/
def inProgress (s : Scraper) : List ScrapeRun :=
  s.runs.filter fun r => match r.phase with
    | .window _ => true
    | .claimed => false
    | .over => false

/-- A run that finishes deletes its own lock key, if it deletes one at all. -/
def DeletesOwn (s : Scraper) : Event → Prop
  | .finish id => s.runs.any (fun r => r.id=id ∧ r.phase=.over)=true →
      ∀ entry∈s.lock, s.now<entry.deadline → entry.value.run=id
  | _ => True

/-- A request that is refused before its claim is not announced as started. -/
theorem ne_started_of_runRequested {cfg : ScraperConfig} {request : RunRequest}
    {response : RunResponse} (h : runRequested cfg request=.error response)
    (source : ScrapeSource) : response≠.started source := by
  rw [runRequested] at h
  split at h
  · cases h
    exact RunResponse.noConfusion
  · split at h
    · cases h
      exact RunResponse.noConfusion
    · cases h

/-- A manual request begins the run that its response announces, and changes
nothing when it is refused. -/
theorem manualStep_eq (cfg : ScraperConfig) (s : Scraper) (request : RunRequest) :
    manualStep cfg s request=
      match runHandler cfg request (!lockLive s) with
      | .started source => begin s "manual".toList source request.durationMinutes
      | _ => s := by
  rw [manualStep,runHandler]
  cases hr : runRequested cfg request with
  | error response =>
    cases response with
    | started source => exact absurd rfl (ne_started_of_runRequested hr source)
    | _ => rfl
  | ok source =>
    cases hl : lockLive s with
    | false => exact if_neg Bool.false_ne_true
    | true => exact if_pos rfl

theorem lockLive_iff {s : Scraper} : lockLive s=true ↔ (viewOf s).Live := by
  simp only [lockLive,LockView.Live,viewOf,Option.any_eq_true,Option.map_eq_some_iff,
    decide_eq_true_eq]
  constructor
  · intro h
    obtain ⟨entry,he,hd⟩ := h
    exact ⟨_,⟨entry,he,rfl⟩,hd⟩
  · intro h
    obtain ⟨_,⟨entry,he,rfl⟩,hd⟩ := h
    exact ⟨entry,he,hd⟩

/-- A claim that finds no live key is granted. -/
theorem viewOf_begin {s : Scraper} (h : lockLive s≠true) (value : Text) (source : ScrapeSource)
    (durationMinutes : Option ℤ) :
    viewOf (begin s value source durationMinutes)=claim lockTtl (viewOf s) s.nextRun := by
  rw [claim,if_neg (fun hl => h (lockLive_iff.mpr hl)),viewOf,begin]
  simp only [Option.map_some,List.map_append,List.map_cons,List.map_nil]
  rfl

/-- Rewriting a run leaves its claim alone. -/
theorem viewOf_updateRun {s : Scraper} {id : ℕ} {f : ScrapeRun → ScrapeRun}
    (h : ∀ r, (f r).id=r.id) : viewOf {s with runs := updateRun s.runs id f}=viewOf s := by
  have hids : (updateRun s.runs id f).map (·.id)=s.runs.map (·.id) := by
    rw [updateRun,List.map_map]
    refine List.map_congr_left fun r _ => ?_
    rw [Function.comp_apply]
    split
    · exact h r
    · rfl
  simp only [viewOf,hids]

/-- An event that tries to claim the lock does nothing else to it. -/
theorem viewOf_claims {cfg : ScraperConfig} {s : Scraper} {e : Event} (h : claims cfg s e=true) :
    viewOf (step cfg s e)=claim lockTtl (viewOf s) s.nextRun := by
  have hrefused : lockLive s=true → claim lockTtl (viewOf s) s.nextRun=viewOf s := fun hlive =>
    if_pos (lockLive_iff.mp hlive)
  cases e with
  | manual request =>
    rw [claims] at h
    rw [step,manualStep]
    cases hr : runRequested cfg request with
    | error response =>
      rw [hr] at h
      cases h
    | ok source =>
      dsimp only
      split
      · rename_i hlive
        exact (hrefused hlive).symm
      · rename_i hlive
        exact viewOf_begin hlive _ _ _
  | cron =>
    rw [claims] at h
    rw [step,cronStep]
    split at h
    · dsimp only
      split
      · rename_i hlive
        exact (hrefused hlive).symm
      · rename_i hlive
        exact viewOf_begin hlive _ _ _
    · cases h
    · cases h
  | _ => cases h

/-- What any other event does to the lock: nothing, a release, or the passing
of time. -/
theorem viewOf_step {cfg : ScraperConfig} {s : Scraper} {e : Event} (h : claims cfg s e≠true) :
    viewOf (step cfg s e)=viewOf s ∨
      (∃ seconds, viewOf (step cfg s e)=wait (viewOf s) seconds) ∨
      ∃ id, viewOf (step cfg s e)=release (viewOf s) id := by
  cases e with
  | tick seconds => exact Or.inr (Or.inl ⟨seconds,rfl⟩)
  | manual request =>
    rw [claims] at h
    rw [step,manualStep]
    cases hr : runRequested cfg request with
    | error response => exact Or.inl rfl
    | ok source =>
      rw [hr] at h
      exact absurd rfl h
  | cron =>
    rw [claims] at h
    rw [step,cronStep]
    cases hc : s.cron with
    | claiming source rest =>
      rw [hc] at h
      exact absurd rfl h
    | waiting id rest => exact Or.inl rfl
    | sleeping wakeAt =>
      dsimp only
      split <;> exact Or.inl rfl
  | start id =>
    refine Or.inl (viewOf_updateRun fun r => ?_)
    rw [afterStart]
    split <;> rfl
  | item id more => exact Or.inl (viewOf_updateRun fun r => rfl)
  | finish id =>
    rw [step,finishStep]
    split
    · refine Or.inr (Or.inr ⟨id,?_⟩)
      rw [viewOf,release,viewOf,List.filter_map]
      rfl
    · exact Or.inl rfl

/-- A claim is timely exactly when it is covered. -/
theorem covered_iff {s : Scraper} : Covered (viewOf s) ↔ s.runs=[] ∨ lockLive s=true := by
  rw [Covered,viewOf,List.map_eq_nil_iff,lockLive_iff]
  rfl

/-- A timely step keeps the lock with at most one run. -/
theorem sole_step {cfg : ScraperConfig} {s : Scraper} {e : Event} (h : Sole (viewOf s))
    (ht : Timely cfg s e) : Sole (viewOf (step cfg s e)) := by
  by_cases hc : claims cfg s e=true
  · rw [viewOf_claims hc]
    exact h.claim (covered_iff.mpr (ht hc)) lockTtl s.nextRun
  · rcases viewOf_step hc with hs|⟨seconds,hs⟩|⟨id,hs⟩
    · rw [hs]
      exact h
    · rw [hs]
      exact h.wait seconds
    · rw [hs]
      exact h.release id

/-- At a boot nobody holds the lock. -/
theorem sole_boot (cfg : ScraperConfig) (now : ℕ) (left : Option (Expiring LockEntry)) :
    Sole (viewOf (boot cfg now left)) := Sole.free rfl

/-- With at most one claim there is at most one window. -/
theorem inProgress_length {s : Scraper} (h : Sole (viewOf s)) : (inProgress s).length≤1 := by
  have hruns : (s.runs.map (·.id)).length≤1 := h.atMostOne
  rw [List.length_map] at hruns
  exact (List.length_filter_le _ _).trans hruns

/-- With at most one claim a finished run deletes no key but its own. -/
theorem deletesOwn {s : Scraper} (h : Sole (viewOf s)) (e : Event) : DeletesOwn s e := by
  cases e with
  | finish id =>
    intro hover entry he _
    obtain ⟨r,hr,hd⟩ := List.any_eq_true.mp hover
    have hid : r.id=id := (of_decide_eq_true hd).1
    have hholder : id∈(viewOf s).holders := List.mem_map.mpr ⟨r,hr,hid⟩
    have hlock : (viewOf s).lock=some ⟨entry.value.run,entry.deadline⟩ :=
      Option.map_eq_some_iff.mpr ⟨entry,he,rfl⟩
    exact h.deletes_own hholder hlock
  | _ => trivial

/-- A run is timely exactly when it never has two unreleased claims, so the
condition leaves out no run that keeps the claims apart. -/
theorem timely_iff {cfg : ScraperConfig} {s : Scraper} {events : List Event}
    (hs : Sole (viewOf s)) : Along (step cfg) (Timely cfg) s events ↔
      ∀ first second, events=first++second → (run (step cfg) s first).runs.length≤1 := by
  have hcount : ∀ t : Scraper, (viewOf t).holders.length=t.runs.length := fun t =>
    List.length_map _
  constructor
  · intro h first second hevents
    rw [hevents,along_append] at h
    have hsole : Sole (viewOf (run (step cfg) s first)) :=
      h.1.invariant (fun _ _ => sole_step) hs
    exact (hcount _).symm.trans_le hsole.atMostOne
  · induction events generalizing s with
    | nil => exact fun _ => trivial
    | cons e events ih =>
      intro h
      have ht : Timely cfg s e := by
        intro hc
        by_contra hlost
        have htwo := claim_uncovered (fun hcov => hlost (covered_iff.mp hcov)) lockTtl s.nextRun
        have hone := h [e] events rfl
        rw [←viewOf_claims hc,hcount] at htwo
        rw [run_cons,run_nil] at hone
        omega
      exact ⟨ht,ih (sole_step hs ht) fun first second hevents =>
        h (e::first) second (congrArg (e::·) hevents)⟩

/-- As long as nobody claims the lock while an unreleased run has outlived its
key, at most one window is in progress at any moment, and a finished run
deletes only the lock that it has acquired. -/
theorem scrapes_exclusive (cfg : ScraperConfig) (now : ℕ) (left : Option (Expiring LockEntry))
    (events : List Event) (h : Along (step cfg) (Timely cfg) (boot cfg now left) events) :
    ∀ first second, events=first++second →
      (inProgress (run (step cfg) (boot cfg now left) first)).length≤1 ∧
      ∀ e, DeletesOwn (run (step cfg) (boot cfg now left) first) e := by
  intro first second hevents
  rw [hevents,along_append] at h
  have hsole : Sole (viewOf (run (step cfg) (boot cfg now left) first)) :=
    h.1.invariant (fun _ _ => sole_step) (sole_boot cfg now left)
  exact ⟨inProgress_length hsole,deletesOwn hsole⟩

/-- The settings of an empty environment. -/
def defaultScraper : ScraperConfig := ⟨[],60,24⟩

/-- A manual run that asks for two hours, the cron loop claiming the lock one
second after its key has expired, and the end of the manual run. -/
def longRun : List Event :=
  [.manual ⟨some "reddit".toList,some 120⟩,.start 0,.tick 5401,.item 0 true,.cron,.start 1,
    .item 0 false]

/-- Two windows are in progress in the course of such a run, and its end
deletes the lock of the cron loop. -/
theorem longRun_collides :
    ¬(inProgress (run (step defaultScraper) (boot defaultScraper 0 none)
      (longRun.take 6))).length≤1 ∧
    ¬DeletesOwn (run (step defaultScraper) (boot defaultScraper 0 none) longRun) (.finish 0) := by
  refine ⟨by decide +kernel,fun h => ?_⟩
  have howner : (1 : ℕ)=0 := h (by decide +kernel) ⟨⟨"cron:urlhaus".toList,1⟩,10801⟩
    (by decide +kernel) (by decide +kernel)
  omega

/-- A run in which the cron loop is refused while a manual run is on, and gets
the lock when it is over. -/
def shortRun : List Event :=
  [.manual ⟨some "reddit".toList,none⟩,.start 0,.tick 60,.cron,.item 0 false,.finish 0,.cron]

theorem shortRun_exclusive :
    (inProgress (run (step defaultScraper) (boot defaultScraper 0 none)
      (shortRun.take 5))).length≤1 ∧
    DeletesOwn (run (step defaultScraper) (boot defaultScraper 0 none) (shortRun.take 5))
      (.finish 0) := by
  have h := scrapes_exclusive defaultScraper 0 none shortRun (by decide +kernel)
    (shortRun.take 5) (shortRun.drop 5) rfl
  exact ⟨h.1,h.2 (.finish 0)⟩

end ScamLens.ScrapeLocks
