import ScamLens.DomainEntries
import ScamLens.EventRuns
import ScamLens.ListRefresh
import ScamLens.VerdictStore

/-!
# All services at once

The state is what the services share and what the DNS server holds: the clock,
Postgres, Redis, the lists in memory, the queries waiting for a cache read and
the scheduled background tasks. An event is one awaited command of some
service; a command that fails without a trace is no event. Runs may interleave
events in any order and may stop a handler between two of its commands.
-/

namespace ScamLens.Services

open DomainEntries EventRuns ListRefresh PythonText Resolver ScanVerdicts Tables Typosquat Upstream
  VerdictCache VerdictStore

/-- A query in the loop of `_cache_lookup`. -/
structure Walk where
  /-- The parsed query. -/
  request : DNSRecord
  /-- Its normalized question name. -/
  qname : Text
  /-- Chain members still to be read. -/
  candidates : List Text
  /-- Address of the client. -/
  clientIp : Option Text
  /-- User the query is attributed to. -/
  userId : Option ℕ

/-- The state of the deployment. -/
structure Deployment where
  /-- The current second. -/
  now : ℕ
  /-- Postgres. -/
  db : Database
  /-- Redis. -/
  redis : Redis
  /-- The lists of the DNS server. -/
  lists : Lists
  /-- Queries waiting for a cache read. -/
  walks : List Walk
  /-- Background tasks of the DNS server. -/
  tasks : List Task

/-- A deployment that has just started on empty stores. -/
def Deployment.init : Deployment where
  now := 0
  db := Database.init
  redis := Redis.init
  lists := ⟨∅,∅,⟨[],fun _ _ _ => false⟩,∅⟩
  walks := []
  tasks := []

/-- Commands of the DNS server on behalf of queries. -/
inductive ResolverEvent where
  /-- A query arrives. -/
  | query (wire : Wire) (clientIp : Option Text) (userId : Option ℕ) (net : Server → Exchange)
  /-- A waiting query reads its next chain member. -/
  | read (i : ℕ) (up : Bool) (net : Server → Exchange)
  /-- A background task runs its command, which may fail. -/
  | runTask (i : ℕ) (ok : Bool) (resolvedIp : Option Text)

/-- Commands of the scanner. -/
inductive ScannerEvent where
  | pop
  | saveCache (domain : Text) (verdict : ScanVerdict)
  | saveRow (domain : Text) (verdict : ScanVerdict)
  | savePromote (domain : Text) (verdict : ScanVerdict)
  | saveError (domain reason : Text)

/-- Commands of the admin endpoints. A transaction is one event here, which
nothing comes in between. -/
inductive AdminEvent where
  /-- The transaction of `add_blocklist`. -/
  | addBlocklist (raw : Text) (reason : Option Text)
  /-- The first command of `remove_blocklist`. -/
  | deleteSeed (raw : Text)
  /-- The second command of `remove_blocklist`. -/
  | downclassify (raw : Text)
  /-- The transaction of `add_whitelist`. -/
  | addWhitelist (raw : Text) (reason : Option Text) (email : Text)
  /-- The first command of `remove_whitelist`. -/
  | deleteWhitelist (raw : Text)
  /-- The Redis command that ends each of these endpoints. -/
  | clearCaches (domain : Text)
  | confirmReport (id : ℕ)
  | rejectReport (id : ℕ)
  | addBrand (raw brand : Text)
  | removeBrand (raw : Text)

/-- Commands of the Tranco import. -/
inductive ImportEvent where
  | purge
  | insert (rows : List (Text×Text))

/-- The four parts of a pass of the refresh loop, and whether their read succeeds. -/
inductive RefreshEvent where
  | blocklist (ok : Bool)
  | whitelist (ok : Bool)
  | brands (ok : Bool)
  | tokens (ok : Bool)

/-- One command of some service, or the passing of time. -/
inductive Event where
  | tick (seconds : ℕ)
  | resolver (e : ResolverEvent)
  | scanner (e : ScannerEvent)
  | admin (e : AdminEvent)
  | report (raw : Text) (note : Option Text) (reporterIp : Text)
  | check (domain : Text)
  | scraper (domain sourcePost platform : Text)
  | tranco (e : ImportEvent)
  | refresh (e : RefreshEvent)

/-- Schedule background tasks. -/
def schedule (s : Deployment) (tasks : List Task) : Deployment := {s with tasks := s.tasks++tasks}

section Steps

variable (dns : Dnslib) (cfg : Config)

/-- A query that has its cached verdict goes through the remaining stages. -/
def finish (s : Deployment) (w : Walk) (net : Server → Exchange) (cached : Option Verdict) :
    Deployment :=
  schedule s (resolveCached dns cfg s.lists net w.request w.qname (qtypeOf w.request.qtype) cached
    w.clientIp w.userId).2

/-- A query waits for its next cache read, or is through with them. -/
def continueWalk (s : Deployment) (w : Walk) (net : Server → Exchange) : Deployment :=
  if w.candidates=[] then finish dns cfg s w net none else {s with walks := s.walks++[w]}

/-- The stages of `resolve` up to its first cache read. -/
def arrive (s : Deployment) (request : DNSRecord) (clientIp : Option Text) (userId : Option ℕ)
    (net : Server → Exchange) : Deployment :=
  let qname := questionName request
  if qname=[] ∨ isBypass qname then s
  else if matchChain qname s.lists.whitelist then s
  else if matchChain qname s.lists.blocklist then
    schedule s (block dns cfg request qname (qtypeOf request.qtype) blocklistVerdict clientIp
      userId).2
  else continueWalk dns cfg s ⟨request,qname,parentChain qname,clientIp,userId⟩ net

/-- One cache read of a waiting query and what follows it; an exception ends
the query. -/
def readCandidate (s : Deployment) (w : Walk) (candidate : Text) (candidates : List Text)
    (up : Bool) (net : Server → Exchange) : Deployment :=
  match cacheGet (s.redis.getVerdict s.now up candidate) with
  | .error _ => s
  | .ok (some v) => finish dns cfg s w net (some v)
  | .ok none => continueWalk dns cfg s {w with candidates := candidates} net

/-- The next cache read of a waiting query. -/
def readNext (s : Deployment) (w : Walk) (up : Bool) (net : Server → Exchange) : Deployment :=
  match w.candidates with
  | [] => finish dns cfg s w net none
  | candidate::candidates => readCandidate dns cfg s w candidate candidates up net

/-- The command of a background task. -/
def perform (s : Deployment) (resolvedIp : Option Text) : Task → Deployment
  | .cacheSet domain verdict ttl =>
    {s with redis := VerdictCache.cacheSet s.redis s.now domain verdict ttl}
  | .resolveThenLog entry => {s with db := s.db.logBlock entry resolvedIp}
  | .promoteToBlocklist domain category => {s with db := s.db.promoteToBlocklist domain category}
  | .enqueueIfNew domain =>
    let mark := rateLimitOk s.redis s.now domain
    schedule {s with redis := mark.1} (if mark.2 then [.claimScan domain] else [])
  | .claimScan domain =>
    let claim := markPending s.redis s.now domain cfg.unknownTtl
    schedule {s with redis := claim.1} (if claim.2 then [.pushScan domain] else [])
  | .pushScan domain => {s with redis := enqueueScan s.redis domain}

/-- One command of the DNS server. -/
def resolverStep (s : Deployment) : ResolverEvent → Deployment
  | .query wire clientIp userId net =>
    match dns.parse wire with
    | none => s
    | some request => arrive dns cfg s request clientIp userId net
  | .read i up net =>
    match s.walks[i]? with
    | none => s
    | some w => readNext dns cfg {s with walks := s.walks.eraseIdx i} w up net
  | .runTask i ok resolvedIp =>
    match s.tasks[i]? with
    | none => s
    | some task =>
      let s := {s with tasks := s.tasks.eraseIdx i}
      if ok then perform cfg s resolvedIp task else s

/-- One command of the scanner. -/
def scannerStep (s : Deployment) : ScannerEvent → Deployment
  | .pop => {s with redis := {s.redis with scanQueue := s.redis.scanQueue.dropLast}}
  | .saveCache domain verdict => {s with redis := saveCache cfg s.now domain s.redis verdict}
  | .saveRow domain verdict => {s with db := s.db.upsertVerdict domain verdict}
  | .savePromote domain verdict => {s with db := savePromote domain s.db verdict}
  | .saveError domain reason => {s with redis := saveErrorCache cfg s.now domain s.redis reason}

/-- The effect of an admin command on Postgres. -/
def adminWrite (db : Database) : AdminEvent → Database
  | .addBlocklist raw reason => ((domainEntry raw reason).map (db.addBlocklist · reason)).getD db
  | .deleteSeed raw => db.deleteSeed (pathDomain raw)
  | .downclassify raw => db.downclassify (pathDomain raw)
  | .addWhitelist raw reason email =>
    ((domainEntry raw reason).map (db.addWhitelist · reason email)).getD db
  | .deleteWhitelist raw => db.deleteWhitelist (pathDomain raw)
  | .clearCaches _ => db
  | .confirmReport id => (db.confirmReport id).getD db
  | .rejectReport id => (db.rejectReport id).getD db
  | .addBrand raw brand => {db with brandDomains := db.brandDomains.insert (pathDomain raw) brand}
  | .removeBrand raw => {db with brandDomains := db.brandDomains.erase (pathDomain raw)}

/-- One command of an admin endpoint. -/
def adminStep (s : Deployment) : AdminEvent → Deployment
  | .clearCaches domain => {s with redis := s.redis.deleteDomain domain}
  | e => {s with db := adminWrite s.db e}

/-- One command of the Tranco import. -/
def importWrite (db : Database) : ImportEvent → Database
  | .purge => db.trancoPurge
  | .insert rows => db.trancoInsert rows

/-- One part of a pass of the refresh loop: a failed blocklist read ends the
pass, the others put an empty result in place. -/
def refreshLists (db : Database) (lists : Lists) : RefreshEvent → Lists
  | .blocklist ok => if ok then replaceBlocklist lists db.selectBlocklist else lists
  | .whitelist ok =>
    replaceWhitelist lists (loadWhitelist (if ok then some db.selectWhitelist else none))
  | .brands ok =>
    replaceBrands lists (loadBrandDomains (if ok then some db.selectBrandDomains else none))
  | .tokens ok => replaceTokens lists (loadDohTokens (if ok then some db.dohTokens else none))

/-- One command of some service. -/
def step (s : Deployment) : Event → Deployment
  | .tick seconds => {s with now := s.now+seconds}
  | .resolver e => resolverStep dns cfg s e
  | .scanner e => scannerStep cfg s e
  | .admin e => adminStep s e
  | .report raw note reporterIp =>
    {s with db := ((reportDomain raw note).map (s.db.insertReport · note reporterIp)).getD s.db}
  | .check domain => {s with redis := enqueueScan s.redis domain}
  | .scraper domain sourcePost platform =>
    {s with db := s.db.promoteScraped domain sourcePost platform}
  | .tranco e => {s with db := importWrite s.db e}
  | .refresh e => {s with lists := refreshLists s.db s.lists e}

end Steps

section Undisturbed

variable (dns : Dnslib) (cfg : Config) (s : Deployment) (up : Bool) (net : Server → Exchange)

/-- Without a waiting query a cache read is no event. -/
theorem run_read_idle (hs : s.walks=[]) (n : ℕ) :
    run (step dns cfg) s (List.replicate n (.resolver (.read 0 up net)))=s := by
  have hidle : step dns cfg s (.resolver (.read 0 up net))=s := by
    rw [step,resolverStep,hs]
    rfl
  exact run_replicate_of_fixed hidle n

/-- A query that is alone reads the next member of its chain. -/
theorem step_read_single (hs : s.walks=[]) {w : Walk} {candidate : Text} {candidates : List Text}
    (hw : w.candidates=candidate::candidates) :
    step dns cfg {s with walks := [w]} (.resolver (.read 0 up net))=
      readCandidate dns cfg s w candidate candidates up net := by
  have hstep : step dns cfg {s with walks := [w]} (.resolver (.read 0 up net))=
      readNext dns cfg {s with walks := []} w up net := rfl
  rw [hstep,←hs,readNext,hw]

/-- A query that is alone reads its chain as `_cache_lookup` does. -/
theorem run_read_walk (hs : s.walks=[]) {candidates : List Text} (hne : candidates≠[]) {w : Walk}
    (hw : w.candidates=candidates) :
    run (step dns cfg) {s with walks := [w]}
        (List.replicate candidates.length (.resolver (.read 0 up net)))=
      match cacheLookupFrom (s.redis.getVerdict s.now up) candidates with
      | .ok cached => finish dns cfg s w net cached
      | .error _ => s := by
  induction candidates generalizing w with
  | nil => exact absurd rfl hne
  | cons candidate candidates ih =>
    rw [List.length_cons,List.replicate_succ,run_cons,step_read_single dns cfg s up net hs hw,
      readCandidate,cacheLookupFrom]
    cases cacheGet (s.redis.getVerdict s.now up candidate) with
    | error failure => exact run_read_idle dns cfg s up net hs _
    | ok found =>
      cases found with
      | some v => exact run_read_idle dns cfg (finish dns cfg s w net (some v)) up net hs _
      | none =>
        dsimp only
        by_cases hc : candidates=[]
        · rw [hc,continueWalk,if_pos rfl]
          rfl
        · rw [continueWalk,if_neg hc,hs]
          exact ih hc rfl

/-- A query that is alone schedules the tasks that `resolve` schedules. -/
theorem run_query_undisturbed (hs : s.walks=[]) {wire : Wire} {request : DNSRecord}
    (hparse : dns.parse wire=some request) (clientIp : Option Text) (userId : Option ℕ) :
    run (step dns cfg) s (.resolver (.query wire clientIp userId net)::
        List.replicate (parentChain (questionName request)).length (.resolver (.read 0 up net)))=
      match resolve dns cfg s.lists (s.redis.getVerdict s.now up) net wire clientIp userId with
      | .ok out => schedule s out.2
      | .error _ => s := by
  have hidle : ∀ t : Deployment, t.walks=[] → run (step dns cfg) t
      (List.replicate (parentChain (questionName request)).length (.resolver (.read 0 up net)))=t :=
    fun t ht => run_read_idle dns cfg t up net ht _
  have hnone : schedule s []=s := by rw [schedule,List.append_nil]
  have harrive : step dns cfg s (.resolver (.query wire clientIp userId net))=
      arrive dns cfg s request clientIp userId net := by
    rw [step,resolverStep,hparse]
  rw [run_cons,harrive,resolve_of_parse hparse,arrive,resolveName]
  split
  · exact (hidle s hs).trans hnone.symm
  split
  · exact (hidle s hs).trans hnone.symm
  split
  · exact hidle _ hs
  rw [continueWalk,cacheLookup]
  dsimp only
  split
  · rename_i hc
    rw [hc]
    rfl
  · rename_i hc
    rw [hs]
    refine (run_read_walk dns cfg s up net hs hc rfl).trans ?_
    cases cacheLookupFrom (s.redis.getVerdict s.now up) (parentChain (questionName request)) <;> rfl

end Undisturbed

end ScamLens.Services
