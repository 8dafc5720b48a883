import ScamLens.PendingMarkers
import ScamLens.QuickLookups

/-!
# Claims on scans

The DNS server claims a domain with a marker under its verdict key and then
pushes it on the scan queue; the lookup endpoint pushes without a claim. The
worker takes a domain off the queue and owns it until its scan ends. A domain
is claimed once as long as neither producer starts on a domain that the other
has on its way, every claim is followed by its push, and every scan leaves a
verdict.
-/

namespace ScamLens.ScanClaims

open Answers EventRuns ExpiringStores LookupDomains PendingMarkers PlainMessages PythonText
  QuickLookups Resolver ScanVerdicts ServiceFrames Services TableFrames Tables Typosquat Upstream
  VerdictCache VerdictStore

/-- What a request of the lookup endpoint does next. -/
inductive CheckStage where
  /-- The query of `_blocklist_match`. -/
  | blocklist
  /-- The GET of the verdict key. -/
  | cache
  /-- The query of `_pg_verdict`. -/
  | row
  /-- The LPUSH. -/
  | push
  deriving DecidableEq

/-- A request of the lookup endpoint that waits for a command. -/
structure CheckRequest where
  /-- Normalized domain. -/
  normalized : Text
  /-- Its next command. -/
  stage : CheckStage

/-- A scan of the worker, from the pop of its domain to its end. -/
structure Scan where
  /-- Domain that was popped. -/
  domain : Text
  /-- Whether one of its SETs of the verdict key took effect. -/
  stored : Bool

/-- The deployment with the requests and the scans under way. -/
structure Scanning where
  /-- What the services share. -/
  services : Deployment
  /-- Requests of the lookup endpoint. -/
  requests : List CheckRequest
  /-- Scans of the worker. -/
  scans : List Scan

/-- A deployment that has just started on empty stores. -/
def Scanning.init : Scanning := ⟨Deployment.init,[],[]⟩

/-- The event is neither one of the scanner nor one of the lookup endpoint. -/
def isElsewhere : Event → Bool
  | .scanner _ => false
  | .check _ => false
  | _ => true

/-- Commands of a scan that take effect. -/
inductive SaveCommand where
  | cache (verdict : ScanVerdict)
  | row (verdict : ScanVerdict)
  | promote (verdict : ScanVerdict)
  | error (reason : Text)

/-- The command with the domain of its scan. -/
def SaveCommand.event (domain : Text) : SaveCommand → ScannerEvent
  | .cache verdict => .saveCache domain verdict
  | .row verdict => .saveRow domain verdict
  | .promote verdict => .savePromote domain verdict
  | .error reason => .saveError domain reason

/-- The command sets the verdict key. -/
def SaveCommand.setsKey : SaveCommand → Bool
  | .cache _ => true
  | .error _ => true
  | _ => false

/-- One command of some service, or the passing of time. -/
inductive ScanEvent where
  /-- A command of another service. -/
  | elsewhere (e : Event) (h : isElsewhere e=true)
  /-- A request of the lookup endpoint arrives. -/
  | checkArrives (domain : Text)
  /-- A request runs its next command, which may fail. -/
  | checkCommand (i : ℕ) (ok : Bool)
  /-- The worker pops a domain. -/
  | pop
  /-- A scan writes. -/
  | save (i : ℕ) (command : SaveCommand)
  /-- A scan ends, by itself or by an exception. -/
  | finish (i : ℕ)

/-- A request after a command that has not failed: it waits for the next one,
or has its response. -/
def advance (s : Scanning) (r : CheckRequest) : Scanning :=
  match r.stage with
  | .blocklist =>
    if ((blocklistMatch s.services.db r.normalized).filter (· != [])).isSome then s
    else {s with requests := s.requests++[⟨r.normalized,.cache⟩]}
  | .cache =>
    if (liveEntry s.services r.normalized).isSome then s
    else {s with requests := s.requests++[⟨r.normalized,.row⟩]}
  | .row =>
    if (s.services.db.domainVerdicts.lookup r.normalized).isSome then s
    else {s with requests := s.requests++[⟨r.normalized,.push⟩]}
  | .push => {s with services := {s.services with
      redis := enqueueScan s.services.redis r.normalized}}

/-- The pop of the worker: the domain at the end of the queue, if there is one. -/
def popScan (s : Scanning) : Scanning :=
  match s.services.redis.scanQueue.getLast? with
  | none => s
  | some domain => {s with
      services := {s.services with redis := {s.services.redis with
        scanQueue := s.services.redis.scanQueue.dropLast}}
      scans := s.scans++[⟨domain,false⟩]}

/-- One command of some service. -/
def step (dns : Dnslib) (cfg : Config) (s : Scanning) : ScanEvent → Scanning
  | .elsewhere e _ => {s with services := Services.step dns cfg s.services e}
  | .checkArrives domain =>
    match lookupDomain domain with
    | none => s
    | some normalized => {s with requests := s.requests++[⟨normalized,.blocklist⟩]}
  | .checkCommand i ok =>
    match s.requests[i]? with
    | none => s
    | some r =>
      let s := {s with requests := s.requests.eraseIdx i}
      if ok then advance s r else s
  | .pop => popScan s
  | .save i command =>
    match s.scans[i]? with
    | none => s
    | some scan => {s with
        services := Services.step dns cfg s.services (.scanner (command.event scan.domain))
        scans := s.scans.set i ⟨scan.domain,scan.stored || command.setsKey⟩}
  | .finish i => {s with scans := s.scans.eraseIdx i}

/-- The domains in the scan queue or being scanned. -/
def outstanding (s : Scanning) : List Text :=
  s.scans.map (·.domain)++s.services.redis.scanQueue

/-- The domain that a task is about to push. -/
def pushDomain : Task → Option Text
  | .pushScan domain => some domain
  | _ => none

/-- The domains that are claimed and not pushed yet. -/
def unpushed (s : Deployment) : List Text := s.tasks.filterMap pushDomain

/-- The domains on their way through the scanner, from the claim of the DNS
server on. -/
def underway (s : Scanning) : List Text := outstanding s++unpushed s.services

/-- No domain is outstanding more than once. -/
def OutstandingOnce (s : Scanning) : Prop := ∀ d, (outstanding s).count d≤1

/-- A domain with a pending marker is outstanding. -/
def MarkedOutstanding (s : Scanning) : Prop :=
  ∀ d, LivePending s.services d → d∈outstanding s

/-- No event lets a pending marker expire or deletes it: a verdict may replace
it. -/
def KeepsMarkers (dns : Dnslib) (cfg : Config) (s : Scanning) (e : ScanEvent) : Prop :=
  ∀ d, LivePending s.services d → liveEntry (step dns cfg s e).services d≠none

/-- The verdict key holds a live pending marker. -/
def isMarked (s : Deployment) (d : Text) : Bool :=
  decide ((liveEntry s d).bind (·.verdict)=some .pending)

/-- No domain is started on while it is under way, no push behind a claim
fails, and no scan ends without a verdict, unless the marker is gone. -/
def isExclusive (s : Scanning) : ScanEvent → Bool
  | .elsewhere (.resolver (.runTask i ok _)) _ =>
    match s.services.tasks[i]? with
    | some (.claimScan domain) =>
      !ok || (liveEntry s.services domain).isSome || !(underway s).contains domain
    | some (.pushScan domain) => ok || !isMarked s.services domain
    | _ => true
  | .checkCommand i ok =>
    match s.requests[i]? with
    | some ⟨domain,.push⟩ => !ok || !(underway s).contains domain
    | _ => true
  | .finish i =>
    match s.scans[i]? with
    | some scan => scan.stored || !isMarked s.services scan.domain
    | none => true
  | _ => true

section Requests

variable (dns : Dnslib) (cfg : Config) (services : Deployment) (scans : List Scan)

/-- The domains that a request has pushed when it ends. -/
def pushedDomains : CheckOutcome → List Text
  | .answered _ pushed => pushed
  | _ => []

/-- Without a waiting request its command is no event. -/
theorem run_checkCommand_idle (n : ℕ) :
    run (step dns cfg) ⟨services,[],scans⟩ (List.replicate n (.checkCommand 0 true))=
      ⟨services,[],scans⟩ :=
  run_replicate_of_fixed rfl n

/-- A request that is alone runs its next command. -/
theorem run_checkCommand_single (r : CheckRequest) (n : ℕ) :
    run (step dns cfg) ⟨services,[r],scans⟩ (List.replicate (n+1) (.checkCommand 0 true))=
      run (step dns cfg) (advance ⟨services,[],scans⟩ r)
        (List.replicate n (.checkCommand 0 true)) := by
  rw [List.replicate_succ,run_cons]
  rfl

/-- A request that is alone pushes what `check` pushes. -/
theorem run_check_undisturbed (domain : Text) :
    run (step dns cfg) ⟨services,[],scans⟩
        (.checkArrives domain::List.replicate 4 (.checkCommand 0 true))=
      ⟨{services with redis := {services.redis with
        scanQueue := pushedDomains (QuickLookups.check services.db
          (fun m => (liveEntry services m).map RawValue.object) domain)++
            services.redis.scanQueue}},[],scans⟩ := by
  have hidle := run_checkCommand_idle dns cfg services scans
  have hnext := run_checkCommand_single dns cfg services scans
  rw [run_cons,step,QuickLookups.check]
  cases lookupDomain domain with
  | none => exact hidle 4
  | some normalized =>
    dsimp only
    rw [List.nil_append,hnext,advance,checkNormalized]
    dsimp only
    cases hmatch : (blocklistMatch services.db normalized).filter (· != []) with
    | some category =>
      rw [Option.isSome_some,if_pos rfl]
      exact hidle 3
    | none =>
      rw [Option.isSome_none,if_neg Bool.false_ne_true,List.nil_append,hnext,advance]
      dsimp only
      cases hlive : liveEntry services normalized with
      | some data =>
        rw [Option.isSome_some,if_pos rfl]
        exact hidle 2
      | none =>
        rw [Option.isSome_none,if_neg Bool.false_ne_true,List.nil_append,hnext,advance,
          Option.map_none,checkRow]
        dsimp only
        cases hrow : services.db.domainVerdicts.lookup normalized with
        | some row =>
          rw [Option.isSome_some,if_pos rfl]
          exact hidle 1
        | none =>
          rw [Option.isSome_none,if_neg Bool.false_ne_true,List.nil_append,hnext,advance]
          rfl

end Requests

section Services

variable {dns : Dnslib} {cfg : Config} {s : Deployment} {d : Text}

/-- The marker, read as a value. -/
theorem isMarked_iff : isMarked s d=true ↔ LivePending s d := by
  rw [isMarked,decide_eq_true_iff,Option.bind_eq_some_iff]
  exact Iff.rfl

/-- Taking a task off the list. -/
theorem perm_unpushed_eraseIdx {tasks : List Task} {i : ℕ} {task : Task}
    (h : tasks[i]?=some task) :
    (tasks.filterMap pushDomain).Perm
      ((pushDomain task).toList++(tasks.eraseIdx i).filterMap pushDomain) := by
  obtain ⟨hi,rfl⟩ := List.getElem?_eq_some_iff.mp h
  have hperm := (List.getElem_cons_eraseIdx_perm hi).symm.filterMap pushDomain
  rw [List.filterMap_cons] at hperm
  cases hpush : pushDomain tasks[i] with
  | none => rwa [hpush] at hperm
  | some domain => rwa [hpush] at hperm

/-- Queries claim nothing. -/
theorem unpushed_resolveCached {lists : Lists} {net : Server → Exchange} {request : DNSRecord}
    {qname : Text} {qtype : QType} {cached : Option Verdict} {clientIp : Option Text}
    {userId : Option ℕ} :
    (resolveCached dns cfg lists net request qname qtype cached clientIp userId).2.filterMap
      pushDomain=[] := by
  refine List.filterMap_eq_nil_iff.mpr fun task htask => ?_
  obtain ⟨entry,rfl⟩|rfl|⟨category,v,rfl,-⟩|⟨hit,-,rfl|⟨category,rfl⟩⟩ := mem_resolveCached htask
  all_goals rfl

/-- The domains in the queue or on their way to it. -/
def queued (s : Deployment) : List Text := s.redis.scanQueue++unpushed s

/-- Tasks that push nothing leave the queue as it is. -/
theorem queued_of_scheduled {t : Deployment} {scheduled : List Task}
    (hredis : t.redis.scanQueue=s.redis.scanQueue) (htasks : t.tasks=s.tasks++scheduled)
    (hpush : scheduled.filterMap pushDomain=[]) : queued t=queued s := by
  rw [queued,queued,unpushed,unpushed,hredis,htasks,List.filterMap_append,hpush,List.append_nil]

/-- The event claims the domain. -/
def Claims (s : Deployment) (c : Text) (e : Event) : Prop :=
  ∃ i ip, e=.resolver (.runTask i true ip) ∧ s.tasks[i]?=some (.claimScan c) ∧ liveEntry s c=none

/-- The event is a failing push of the domain. -/
def LosesPush (s : Deployment) (c : Text) (e : Event) : Prop :=
  ∃ i ip, e=.resolver (.runTask i false ip) ∧ s.tasks[i]?=some (.pushScan c)

/-- The command of a task, seen from the queue. -/
theorem queued_perform (cfg : Config) (s : Deployment) (ip : Option Text) (task : Task) :
    ((∀ c, task=.claimScan c → liveEntry s c≠none) ∧
      (queued (perform cfg s ip task)).Perm ((pushDomain task).toList++queued s)) ∨
    ∃ c, task=.claimScan c ∧ liveEntry s c=none ∧
      (queued (perform cfg s ip task)).Perm (c::queued s) := by
  cases task with
  | enqueueIfNew domain =>
    refine Or.inl ⟨fun c hc => ?_,List.Perm.of_eq (queued_of_scheduled rfl rfl ?_)⟩
    · cases hc
    · split <;> rfl
  | claimScan domain =>
    cases hlive : liveEntry s domain with
    | none =>
      have hclaim : setIfAbsent s.redis.verdicts s.now cfg.unknownTtl domain pendingPayload=
          (setFor s.redis.verdicts s.now cfg.unknownTtl domain pendingPayload,true) := by
        rw [setIfAbsent,if_pos]
        exact Option.isNone_iff_eq_none.mpr hlive
      refine Or.inr ⟨domain,rfl,hlive,?_⟩
      rw [perform,markPending,hclaim]
      dsimp only
      rw [if_pos rfl,queued,queued,unpushed,unpushed,schedule,List.filterMap_append,
        ←List.append_assoc]
      exact List.perm_append_singleton domain _
    | some data =>
      have hclaim : setIfAbsent s.redis.verdicts s.now cfg.unknownTtl domain pendingPayload=
          (s.redis.verdicts,false) := by
        rw [setIfAbsent,if_neg]
        rw [Option.isNone_iff_eq_none]
        intro hnone
        rw [liveEntry,hnone] at hlive
        cases hlive
      refine Or.inl ⟨fun c hc => ?_,List.Perm.of_eq (queued_of_scheduled rfl rfl ?_)⟩
      · cases hc
        rw [hlive]
        exact Option.some_ne_none data
      · rw [markPending,hclaim]
        rfl
  | _ =>
    refine Or.inl ⟨fun c hc => ?_,List.Perm.refl _⟩
    cases hc

/-- A domain is claimed by a task that runs. -/
theorem not_claims {e : Event} (h : ∀ i ip, e≠.resolver (.runTask i true ip)) (c : Text) :
    ¬Claims s c e := by
  intro hc
  obtain ⟨i,ip,he,-⟩ := hc
  exact h i ip he

/-- What is queued changes with a claim, or a push that fails, when a task
runs. -/
theorem queued_runTask (dns : Dnslib) (cfg : Config) (s : Deployment) (i : ℕ) (ok : Bool)
    (ip : Option Text) :
    let e : Event := .resolver (.runTask i ok ip)
    ((∀ c, ¬Claims s c e) ∧ (queued (Services.step dns cfg s e)).Perm (queued s)) ∨
    (∃ c, Claims s c e ∧ (queued (Services.step dns cfg s e)).Perm (c::queued s)) ∨
    ∃ c, LosesPush s c e ∧ (queued s).Perm (c::queued (Services.step dns cfg s e)) := by
  dsimp only
  obtain ⟨ht,hs⟩|⟨task,ht,hs⟩ := step_runTask dns cfg s i ok ip
  · rw [hs]
    refine Or.inl ⟨fun c hc => ?_,.refl _⟩
    obtain ⟨j,ip',he,ht',-⟩ := hc
    cases he
    rw [ht] at ht'
    cases ht'
  have hleft : (queued s).Perm
      ((pushDomain task).toList++queued {s with tasks := s.tasks.eraseIdx i}) :=
    ((perm_unpushed_eraseIdx ht).append_left _).trans
      (List.perm_append_comm_assoc _ _ _)
  rw [hs]
  cases ok with
  | false =>
    rw [if_neg Bool.false_ne_true]
    cases task with
    | pushScan c => exact Or.inr (Or.inr ⟨c,⟨i,ip,rfl,ht⟩,hleft⟩)
    | _ => exact Or.inl ⟨not_claims (fun i ip he => by cases he),hleft.symm⟩
  | true =>
    rw [if_pos rfl]
    obtain ⟨hheld,hmoved⟩|⟨c,rfl,hfree,hclaimed⟩ :=
      queued_perform cfg {s with tasks := s.tasks.eraseIdx i} ip task
    · refine Or.inl ⟨fun c hc => ?_,hmoved.trans hleft.symm⟩
      obtain ⟨j,ip',he,ht',hfree⟩ := hc
      cases he
      exact hheld c (Option.some.inj (ht.symm.trans ht')) hfree
    · exact Or.inr (Or.inl ⟨c,⟨i,ip,rfl,ht,hfree⟩,hclaimed.trans (hleft.symm.cons c)⟩)

/-- Only the commands of `_enqueue_if_new` change what is queued: a claim adds
its domain, and a push that fails drops its own. -/
theorem queued_step (dns : Dnslib) (cfg : Config) (s : Deployment) {e : Event}
    (h : isElsewhere e=true) :
    ((∀ c, ¬Claims s c e) ∧ (queued (Services.step dns cfg s e)).Perm (queued s)) ∨
    (∃ c, Claims s c e ∧ (queued (Services.step dns cfg s e)).Perm (c::queued s)) ∨
    ∃ c, LosesPush s c e ∧ (queued s).Perm (c::queued (Services.step dns cfg s e)) := by
  cases e with
  | resolver e =>
    cases e with
    | query wire clientIp userId net =>
      have hredis : (Services.step dns cfg s (.resolver (.query wire clientIp userId net))).redis=
          s.redis := (step_query_same wire clientIp userId net).2.2.1
      refine Or.inl ⟨not_claims (fun i ip he => by cases he),?_⟩
      obtain ⟨scheduled,htasks,rfl|⟨entry,rfl⟩|⟨request,qname,qtype,rfl⟩⟩ :=
        step_query_tasks dns cfg s wire clientIp userId net
      · exact .of_eq (queued_of_scheduled (congrArg _ hredis) htasks rfl)
      · exact .of_eq (queued_of_scheduled (congrArg _ hredis) htasks rfl)
      · exact .of_eq (queued_of_scheduled (congrArg _ hredis) htasks unpushed_resolveCached)
    | read i up net =>
      have hredis : (Services.step dns cfg s (.resolver (.read i up net))).redis=s.redis :=
        (step_read_same i up net).2.2.1
      refine Or.inl ⟨not_claims (fun i ip he => by cases he),?_⟩
      obtain ⟨scheduled,htasks,rfl|⟨w,cached,-,rfl,-⟩⟩ := step_read_tasks dns cfg s i up net
      · exact .of_eq (queued_of_scheduled (congrArg _ hredis) htasks rfl)
      · exact .of_eq (queued_of_scheduled (congrArg _ hredis) htasks unpushed_resolveCached)
    | runTask i ok ip => exact queued_runTask dns cfg s i ok ip
  | admin e => cases e <;> exact Or.inl ⟨not_claims (fun i ip he => by cases he),.refl _⟩
  | scanner e => cases h
  | check domain => cases h
  | _ => exact Or.inl ⟨not_claims (fun i ip he => by cases he),.refl _⟩

/-- Whatever caches a verdict caches one of a typosquat. -/
def CachesSquats (s : Deployment) : Prop :=
  ∀ d v ttl, Task.cacheSet d v ttl∈s.tasks → ∃ hit, v=typosquatVerdict hit

/-- Queries cache nothing else. -/
theorem cachesSquats_step (h : CachesSquats s) (e : Event) :
    CachesSquats (Services.step dns cfg s e) := by
  intro d v ttl hmem
  obtain hold|hsquat := cacheSet_step hmem
  · exact h d v ttl hold
  · exact hsquat

/-- A scan does not come to a pending verdict. -/
theorem kind_ne_pending (c : ScanClass) : c.kind≠.pending := by
  cases c <;> decide

/-- A marker is there before an event, or the event claims its domain. -/
theorem livePending_step (h : CachesSquats s) {e : Event}
    (hp : LivePending (Services.step dns cfg s e) d) :
    LivePending s d ∨ Claims s d e := by
  obtain ⟨data,hdata,hpending⟩ := hp
  obtain hold|⟨entry,hwrites,rfl⟩ := liveEntry_step hdata
  · exact Or.inl ⟨data,hold,hpending⟩
  obtain ⟨i,ip,v,ttl,rfl,ht,rfl⟩|⟨i,ip,rfl,ht,rfl⟩|⟨v,rfl,rfl⟩|⟨reason,rfl,rfl⟩ :=
    writesEntry_cases hwrites
  · obtain ⟨hit,rfl⟩ := h d v ttl (List.mem_of_getElem? ht)
    cases hpending
  · obtain ⟨-,⟨v,ttl,ht',-⟩|⟨-,hfree,-⟩⟩ := hwrites
    · rw [ht] at ht'
      cases ht'
    · exact Or.inr ⟨i,ip,rfl,ht,hfree⟩
  · exact absurd (Option.some.inj hpending) (kind_ne_pending v.verdict)
  · cases hpending

/-- A scan marks nothing. -/
theorem livePending_scanner (h : CachesSquats s) {e : ScannerEvent}
    (hp : LivePending (Services.step dns cfg s (.scanner e)) d) : LivePending s d := by
  obtain hold|⟨i,ip,he,-⟩ := livePending_step h hp
  · exact hold
  · cases he

/-- A SET of a scan replaces the marker of its domain. -/
theorem not_livePending_setsKey {command : SaveCommand} (h : command.setsKey=true) :
    ¬LivePending (Services.step dns cfg s (.scanner (command.event d))) d := by
  intro hp
  obtain ⟨data,hdata,hpending⟩ := hp
  obtain ⟨entry,hentry,-,rfl⟩ := getLive_eq_some.mp hdata
  cases command with
  | cache verdict =>
    rw [Services.step,SaveCommand.event,scannerStep,lookup_saveCache,if_pos rfl] at hentry
    rw [←Option.some.inj hentry] at hpending
    exact kind_ne_pending verdict.verdict (Option.some.inj hpending)
  | error reason =>
    rw [Services.step,SaveCommand.event,scannerStep,lookup_saveErrorCache,if_pos rfl] at hentry
    rw [←Option.some.inj hentry] at hpending
    cases hpending
  | _ => cases h

/-- Writing leaves the queue as it is. -/
theorem queued_save (command : SaveCommand) :
    queued (Services.step dns cfg s (.scanner (command.event d)))=queued s := by
  cases command <;> rfl

end Services

section Runs

variable {dns : Dnslib} {cfg : Config} {s : Scanning} {d : Text}

/-- What holds as long as producers and scans are exclusive. -/
structure Exclusive (s : Scanning) : Prop where
  /-- No domain is under way twice. -/
  once : (underway s).Nodup
  /-- A marked domain is under way. -/
  held : ∀ d, LivePending s.services d → d∈underway s
  /-- A scan that has stored its verdict has replaced the marker. -/
  stored : ∀ scan∈s.scans, scan.stored=true → ¬LivePending s.services scan.domain
  /-- No task caches a marker. -/
  squats : CachesSquats s.services

/-- The domains under way are those queued and those being scanned. -/
theorem underway_eq (s : Scanning) :
    underway s=s.scans.map (·.domain)++queued s.services := by
  rw [underway,outstanding,queued,List.append_assoc]

/-- On empty stores nothing is under way. -/
theorem exclusive_init : Exclusive Scanning.init where
  once := List.nodup_nil
  held d h := by
    obtain ⟨data,hdata,-⟩ := h
    cases hdata
  stored scan h := absurd h List.not_mem_nil
  squats d v ttl h := absurd h List.not_mem_nil

/-- A claim that is exclusive starts on a domain that is not under way. -/
theorem not_mem_of_claims {e : Event} {he : isElsewhere e=true} (hclaim : Claims s.services d e)
    (hx : isExclusive s (.elsewhere e he)=true) : d∉underway s := by
  obtain ⟨i,ip,rfl,ht,hfree⟩ := hclaim
  simpa only [isExclusive,ht,hfree,Bool.not_true,Option.isSome_none,Bool.false_or,
    Bool.not_eq_true',List.contains_eq_mem,decide_eq_false_iff_not] using hx

/-- A push that fails has lost its marker before. -/
theorem not_livePending_of_losesPush {e : Event} {he : isElsewhere e=true}
    (hlost : LosesPush s.services d e) (hx : isExclusive s (.elsewhere e he)=true) :
    ¬LivePending s.services d := by
  obtain ⟨i,ip,rfl,ht⟩ := hlost
  rw [←isMarked_iff,Bool.not_eq_true]
  simpa only [isExclusive,ht,Bool.false_or,Bool.not_eq_true'] using hx

/-- What the other services change about the domains under way: a claim adds its
domain, and a push that fails drops its own. -/
theorem underway_elsewhere (dns : Dnslib) (cfg : Config) (s : Scanning) {e : Event}
    (he : isElsewhere e=true) :
    ((∀ c, ¬Claims s.services c e) ∧
      (underway (step dns cfg s (.elsewhere e he))).Perm (underway s)) ∨
    (∃ c, Claims s.services c e ∧
      (underway (step dns cfg s (.elsewhere e he))).Perm (c::underway s)) ∨
    ∃ c, LosesPush s.services c e ∧
      (underway s).Perm (c::underway (step dns cfg s (.elsewhere e he))) := by
  rw [step,underway_eq,underway_eq]
  obtain ⟨hidle,hperm⟩|⟨c,hclaim,hperm⟩|⟨c,hlost,hperm⟩ := queued_step dns cfg s.services he
  · exact Or.inl ⟨hidle,hperm.append_left _⟩
  · exact Or.inr (Or.inl ⟨c,hclaim,(hperm.append_left _).trans List.perm_middle⟩)
  · exact Or.inr (Or.inr ⟨c,hlost,(hperm.append_left _).trans List.perm_middle⟩)

/-- What the other services do, the DNS server with its claims and pushes among
them. -/
theorem exclusive_elsewhere (h : Exclusive s) {e : Event} {he : isElsewhere e=true}
    (hx : isExclusive s (.elsewhere e he)=true) :
    Exclusive (step dns cfg s (.elsewhere e he)) := by
  have hmarks : ∀ d, LivePending (Services.step dns cfg s.services e) d →
      LivePending s.services d ∨ Claims s.services d e := fun d => livePending_step h.squats
  have hstored : ∀ scan∈s.scans, scan.stored=true →
      ¬LivePending (Services.step dns cfg s.services e) scan.domain := by
    intro scan hscan hset hp
    obtain hp|hclaim := hmarks _ hp
    · exact h.stored scan hscan hset hp
    · refine not_mem_of_claims hclaim hx ?_
      rw [underway_eq]
      exact List.mem_append_left _ (List.mem_map_of_mem hscan)
  have hsquats : CachesSquats (Services.step dns cfg s.services e) := cachesSquats_step h.squats e
  obtain ⟨hidle,hsame⟩|⟨c,hclaim,hadd⟩|⟨c,hlost,hdrop⟩ := underway_elsewhere dns cfg s he
  · refine ⟨hsame.nodup_iff.mpr h.once,fun d hp => ?_,hstored,hsquats⟩
    exact hsame.mem_iff.mpr (h.held d ((hmarks d hp).resolve_right (hidle d)))
  · refine ⟨?_,fun d hp => ?_,hstored,hsquats⟩
    · exact hadd.nodup_iff.mpr (List.nodup_cons.mpr ⟨not_mem_of_claims hclaim hx,h.once⟩)
    · rw [hadd.mem_iff]
      obtain hp|⟨i,ip,he',ht,-⟩ := hmarks d hp
      · exact List.mem_cons_of_mem c (h.held d hp)
      · obtain ⟨j,ip',hej,htj,-⟩ := hclaim
        rw [hej] at he'
        cases he'
        cases htj.symm.trans ht
        exact List.mem_cons_self
  · have hnodup := List.nodup_cons.mp (hdrop.nodup_iff.mp h.once)
    refine ⟨hnodup.2,fun d hp => ?_,hstored,hsquats⟩
    have hclaims : ¬Claims s.services d e := by
      intro hclaim
      obtain ⟨i,ip,he',-⟩ := hclaim
      obtain ⟨j,ip',hej,-⟩ := hlost
      rw [hej] at he'
      cases he'
    have hp' := (hmarks d hp).resolve_right hclaims
    refine (List.mem_cons.mp (hdrop.mem_iff.mp (h.held d hp'))).resolve_left fun hd => ?_
    exact not_livePending_of_losesPush hlost hx (hd ▸ hp')

/-- A request pushes only what is not under way. -/
theorem exclusive_advance (h : Exclusive s) {r : CheckRequest}
    (hr : r.stage=.push → r.normalized∉underway s) : Exclusive (advance s r) := by
  obtain ⟨normalized,stage⟩ := r
  have hkeep : ∀ requests, Exclusive {s with requests := requests} := fun requests =>
    ⟨h.once,h.held,h.stored,h.squats⟩
  cases stage with
  | blocklist =>
    rw [advance]
    dsimp only
    split
    · exact h
    · exact hkeep _
  | cache =>
    rw [advance]
    dsimp only
    split
    · exact h
    · exact hkeep _
  | row =>
    rw [advance]
    dsimp only
    split
    · exact h
    · exact hkeep _
  | push =>
    have hadd : (underway (advance s ⟨normalized,.push⟩)).Perm (normalized::underway s) := by
      rw [underway_eq,underway_eq]
      exact List.perm_middle
    refine ⟨?_,fun d hp => ?_,h.stored,h.squats⟩
    · exact hadd.nodup_iff.mpr (List.nodup_cons.mpr ⟨hr rfl,h.once⟩)
    · exact hadd.mem_iff.mpr (List.mem_cons_of_mem normalized (h.held d hp))

/-- A pop moves a domain from the queue to a new scan. -/
theorem exclusive_pop (h : Exclusive s) : Exclusive (popScan s) := by
  cases hlast : s.services.redis.scanQueue.getLast? with
  | none =>
    rw [popScan,hlast]
    exact h
  | some domain =>
    have hqueue : (domain::s.services.redis.scanQueue.dropLast).Perm s.services.redis.scanQueue :=
      (List.perm_append_singleton domain _).symm.trans
        (.of_eq (List.dropLast_append_getLast? domain hlast))
    have hmoved : (underway (popScan s)).Perm (underway s) := by
      rw [popScan,hlast,underway_eq,underway_eq,List.map_append,List.append_assoc]
      exact (hqueue.append_right _).append_left _
    have hmarks : ∀ d, LivePending (popScan s).services d → LivePending s.services d := by
      intro d hp
      rwa [popScan,hlast] at hp
    refine ⟨hmoved.nodup_iff.mpr h.once,?_,?_,?_⟩
    · exact fun d hp => hmoved.mem_iff.mpr (h.held d (hmarks d hp))
    · intro scan hscan hset hp
      rw [popScan,hlast] at hscan
      obtain hscan|hnew := List.mem_append.mp hscan
      · exact h.stored scan hscan hset (hmarks _ hp)
      · rw [List.mem_singleton.mp hnew] at hset
        cases hset
    · rw [popScan,hlast]
      exact h.squats

/-- A scan writes about its own domain. -/
theorem exclusive_save (h : Exclusive s) (i : ℕ) (command : SaveCommand) :
    Exclusive (step dns cfg s (.save i command)) := by
  rw [step]
  cases hi : s.scans[i]? with
  | none => exact h
  | some scan =>
    have hmarks : ∀ d, LivePending (Services.step dns cfg s.services
        (.scanner (command.event scan.domain))) d → LivePending s.services d :=
      fun d => livePending_scanner h.squats
    have hdomains : (s.scans.set i ⟨scan.domain,scan.stored || command.setsKey⟩).map (·.domain)=
        s.scans.map (·.domain) := by
      obtain ⟨hlength,rfl⟩ := List.getElem?_eq_some_iff.mp hi
      rw [List.map_set]
      dsimp only
      rw [←List.getElem_map (fun scan : Scan => scan.domain),List.set_getElem_self]
      rwa [List.length_map]
    have hsame : underway ⟨Services.step dns cfg s.services (.scanner (command.event scan.domain)),
        s.requests,s.scans.set i ⟨scan.domain,scan.stored || command.setsKey⟩⟩=underway s := by
      rw [underway_eq,underway_eq,hdomains,queued_save]
    refine ⟨?_,?_,?_,cachesSquats_step h.squats _⟩
    · exact hsame ▸ h.once
    · exact fun d hp => hsame ▸ h.held d (hmarks d hp)
    · intro other hother hset hp
      obtain hold|rfl := List.mem_or_eq_of_mem_set hother
      · exact h.stored other hold hset (hmarks _ hp)
      · obtain hstored|hkey := Bool.or_eq_true_iff.mp hset
        · exact h.stored scan (List.mem_of_getElem? hi) hstored (hmarks _ hp)
        · have hreplaced : ¬LivePending (Services.step dns cfg s.services
              (.scanner (command.event scan.domain))) scan.domain := not_livePending_setsKey hkey
          exact hreplaced hp

/-- A scan that ends has replaced the marker of its domain. -/
theorem exclusive_finish (h : Exclusive s) {i : ℕ} (hx : isExclusive s (.finish i)=true) :
    Exclusive (step dns cfg s (.finish i)) := by
  rw [step]
  cases hi : s.scans[i]? with
  | none =>
    rw [List.eraseIdx_of_length_le (List.getElem?_eq_none_iff.mp hi)]
    exact h
  | some scan =>
    obtain ⟨hlength,hget⟩ := List.getElem?_eq_some_iff.mp hi
    have hdrop : (underway s).Perm
        (scan.domain::underway {s with scans := s.scans.eraseIdx i}) := by
      rw [underway_eq,underway_eq,←List.cons_append]
      refine List.Perm.append_right _ ?_
      rw [←hget,←List.map_cons]
      exact (List.getElem_cons_eraseIdx_perm hlength).symm.map (·.domain)
    have hunmarked : ¬LivePending s.services scan.domain := by
      rw [isExclusive,hi,Bool.or_eq_true_iff] at hx
      obtain hstored|hmark := hx
      · exact h.stored scan (List.mem_of_getElem? hi) hstored
      · rwa [Bool.not_eq_true',←Bool.not_eq_true,isMarked_iff] at hmark
    refine ⟨?_,fun d hp => ?_,fun other hother => ?_,h.squats⟩
    · exact (List.nodup_cons.mp (hdrop.nodup_iff.mp h.once)).2
    · refine (List.mem_cons.mp (hdrop.mem_iff.mp (h.held d hp))).resolve_left fun hd => ?_
      exact hunmarked (hd ▸ hp)
    · exact h.stored other (List.mem_of_mem_eraseIdx hother)

/-- Every event keeps the invariant under its condition. -/
theorem exclusive_step (h : Exclusive s) {e : ScanEvent} (hx : isExclusive s e=true) :
    Exclusive (step dns cfg s e) := by
  cases e with
  | elsewhere e he => exact exclusive_elsewhere h hx
  | checkArrives domain =>
    rw [step]
    split
    · exact h
    · exact ⟨h.once,h.held,h.stored,h.squats⟩
  | checkCommand i ok =>
    rw [step]
    cases hi : s.requests[i]? with
    | none => exact h
    | some r =>
      have hleft : Exclusive {s with requests := s.requests.eraseIdx i} :=
        ⟨h.once,h.held,h.stored,h.squats⟩
      cases ok with
      | false => exact hleft
      | true =>
        refine exclusive_advance hleft fun hpush => ?_
        obtain ⟨normalized,stage⟩ := r
        cases hpush
        have hfree : normalized∉underway s := by
          simpa only [isExclusive,hi,Bool.not_true,Bool.false_or,Bool.not_eq_true',
            List.contains_eq_mem,decide_eq_false_iff_not] using hx
        exact hfree
  | pop => exact exclusive_pop h
  | save i command => exact exclusive_save h i command
  | finish i => exact exclusive_finish h hx

/-- In runs in which neither the lookup endpoint nor a claim starts on a domain
that is under way, no push of a live claim fails, and no scan leaves a live
marker behind, no domain is outstanding more than once. A marked domain is
outstanding too, exactly as long as no push of a live claim is still to come. -/
theorem claims_exact {events : List ScanEvent}
    (hrun : Along (step dns cfg) (fun s e => isExclusive s e=true) Scanning.init events)
    {t : Scanning} (ht : t=run (step dns cfg) Scanning.init events) :
    OutstandingOnce t ∧
      (MarkedOutstanding t ↔ ∀ d∈unpushed t.services, ¬LivePending t.services d) := by
  have h : Exclusive t := by
    rw [ht]
    exact hrun.invariant (fun s e h hx => exclusive_step h hx) exclusive_init
  obtain ⟨hnodup,-,hdisjoint⟩ := List.nodup_append'.mp h.once
  refine ⟨List.nodup_iff_count_le_one.mp hnodup,fun hmarked d hd hp => ?_,fun hpushed d hp => ?_⟩
  · exact hdisjoint (hmarked d hp) hd
  · exact (List.mem_append.mp (h.held d hp)).resolve_right fun hd => hpushed d hd hp

end Runs

section Examples

/-- A query has a domain scanned while a request of the lookup endpoint has
another one scanned. -/
def scannedOnce : List ScanEvent :=
  [.elsewhere (.resolver
      (.query (aQuery "a.bc".toList) none none fun _ => ⟨.timeout,.timeout⟩)) rfl,
    .checkArrives "d.ef".toList,
    .elsewhere (.resolver (.read 0 true fun _ => ⟨.timeout,.timeout⟩)) rfl,
    .checkCommand 0 true,.elsewhere (.resolver (.runTask 0 true none)) rfl,.checkCommand 0 true,
    .elsewhere (.resolver (.runTask 0 true none)) rfl,.checkCommand 0 true,
    .elsewhere (.resolver (.runTask 0 true none)) rfl,.checkCommand 0 true,.pop,.pop,
    .save 0 (.error "fetch failed".toList),.finish 0]

/-- The scan of the query is over, and the other one goes on. -/
theorem claims_exact_scannedOnce :
    outstanding (run (step plainDns defaultConfig) Scanning.init scannedOnce)=["d.ef".toList] ∧
      OutstandingOnce (run (step plainDns defaultConfig) Scanning.init scannedOnce) ∧
      MarkedOutstanding (run (step plainDns defaultConfig) Scanning.init scannedOnce) := by
  have hrun : Along (step plainDns defaultConfig) (fun s e => isExclusive s e=true) Scanning.init
      scannedOnce := by decide +kernel
  have h := claims_exact hrun rfl
  have hunpushed : unpushed (run (step plainDns defaultConfig) Scanning.init scannedOnce).services=
      [] := by decide +kernel
  refine ⟨by decide +kernel,h.1,h.2.mpr fun d hd => ?_⟩
  rw [hunpushed] at hd
  exact absurd hd List.not_mem_nil

/-- Two requests of the lookup endpoint for one domain. -/
def polledTwice : List ScanEvent :=
  [.checkArrives "a.bc".toList,.checkArrives "a.bc".toList]++
    List.replicate 8 (.checkCommand 0 true)

/-- A query claims its domain. -/
def claimed : List ScanEvent :=
  [.elsewhere (.resolver
      (.query (aQuery "a.bc".toList) none none fun _ => ⟨.timeout,.timeout⟩)) rfl,
    .elsewhere (.resolver (.read 0 true fun _ => ⟨.timeout,.timeout⟩)) rfl,
    .elsewhere (.resolver (.runTask 0 true none)) rfl,
    .elsewhere (.resolver (.runTask 0 true none)) rfl]

/-- The push that follows the claim fails. -/
def pushFailed : List ScanEvent :=
  claimed++[.elsewhere (.resolver (.runTask 0 false none)) rfl]

/-- Without a key no event takes a marker away. -/
theorem keepsMarkers_of_keys {dns : Dnslib} {cfg : Config} {s : Scanning} {e : ScanEvent}
    (h : s.services.redis.verdicts.keys=∅) : KeepsMarkers dns cfg s e := by
  intro d hp
  obtain ⟨data,hdata,-⟩ := hp
  obtain ⟨entry,hentry,-⟩ := getLive_eq_some.mp hdata
  have hkey := Finmap.mem_keys.mpr (Finmap.mem_of_lookup_eq_some hentry)
  rw [h] at hkey
  exact absurd hkey (Finset.notMem_empty d)

/-- A command that fails takes no marker away. -/
theorem keepsMarkers_failed {dns : Dnslib} {cfg : Config} {s : Scanning} {i : ℕ}
    {ip : Option Text} {he : isElsewhere (.resolver (.runTask i false ip))=true} :
    KeepsMarkers dns cfg s (.elsewhere (.resolver (.runTask i false ip)) he) := by
  intro d hp
  obtain ⟨data,hdata,-⟩ := hp
  have hsame : liveEntry (Services.step dns cfg s.services (.resolver (.runTask i false ip))) d=
      liveEntry s.services d := by
    obtain ⟨-,hs⟩|⟨task,-,hs⟩ := step_runTask dns cfg s.services i false ip <;> rw [hs]
    rfl
  rw [step,hsame,hdata]
  exact Option.some_ne_none data

/-- Polling pushes a domain again, and a failed push strands a marker. -/
theorem polledTwice_and_pushFailed :
    Along (step plainDns defaultConfig) (KeepsMarkers plainDns defaultConfig) Scanning.init
        polledTwice ∧
      ¬OutstandingOnce (run (step plainDns defaultConfig) Scanning.init polledTwice) ∧
    Along (step plainDns defaultConfig) (KeepsMarkers plainDns defaultConfig) Scanning.init
        pushFailed ∧
      ¬MarkedOutstanding (run (step plainDns defaultConfig) Scanning.init pushFailed) := by
  have hpolled : Along (step plainDns defaultConfig)
      (fun s _ => s.services.redis.verdicts.keys=∅) Scanning.init polledTwice := by decide +kernel
  have hfirst : Along (step plainDns defaultConfig)
      (fun s _ => s.services.redis.verdicts.keys=∅) Scanning.init claimed := by decide +kernel
  refine ⟨hpolled.imp fun s e => keepsMarkers_of_keys,fun honce => ?_,?_,fun hmarked => ?_⟩
  · exact absurd (honce "a.bc".toList) (by decide +kernel)
  · rw [pushFailed,along_append]
    exact ⟨hfirst.imp fun s e => keepsMarkers_of_keys,keepsMarkers_failed,trivial⟩
  · have hp : LivePending (run (step plainDns defaultConfig) Scanning.init pushFailed).services
        "a.bc".toList := isMarked_iff.mp (by decide +kernel)
    exact absurd (hmarked _ hp) (by decide +kernel)

end Examples

end ScamLens.ScanClaims
