import ScamLens.SeparatorChains
import ScamLens.Typosquat
import ScamLens.Upstream
import ScamLens.VerdictCache

/-!
# The resolver pipeline

One query runs through bypass suffixes, whitelist, blocklist, cached verdicts
and the typosquat detector, and is forwarded when none of them decides. The
result of a query is its answer together with the background tasks it has
scheduled, or the exception that a cache read lets escape. A reply that cannot
be packed raises behind the tasks, and is a result without bytes. The outcomes
of the cache reads and of the upstream attempts are arguments.
-/

namespace ScamLens.Resolver

open PythonText SeparatorChains Typosquat Upstream VerdictCache

/-- The settings of the DNS server and the scanner that the pipelines read;
both services load them from one environment. -/
structure Config where
  /-- Address of the block page. -/
  blockIp : Text
  /-- Seconds a sinkhole answer may be cached. -/
  blockTtl : ℕ
  /-- Seconds a safe verdict is cached. -/
  safeTtl : ℕ
  /-- Seconds a scam verdict is cached. -/
  scamTtl : ℕ
  /-- Seconds any other verdict or marker is cached. -/
  unknownTtl : ℕ

/-- `Config.from_env` in an empty environment. -/
def defaultConfig : Config where
  blockIp := "0.0.0.0".toList
  blockTtl := 60
  safeTtl := 86400
  scamTtl := 604800
  unknownTtl := 300

/-- The lists the DNS server holds in memory between two refreshes. -/
structure Lists where
  /-- Domains to sinkhole. -/
  blocklist : Finset Text
  /-- Domains to forward unseen. -/
  whitelist : Finset Text
  /-- Detector over the brand domains. -/
  typosquat : TyposquatDetector
  /-- DoH token to user id. -/
  dohTokens : KeyedTables.Table Text ℕ

/-- `ResolveResult`, or the exception of `reply.pack()` in its place. -/
structure ResolveResult where
  /-- Bytes sent back to the client, none when packing the reply raises: the
  exception then leaves `resolve`, and the tasks stay scheduled. -/
  wire : Option Wire
  /-- Whether the name was sinkholed. -/
  blocked : Bool
  /-- Normalized question name. -/
  domain : Text
  /-- Verdict of a sinkholed name. -/
  verdict : Option Verdict
  deriving DecidableEq

/-- Arguments of `_resolve_then_log`, a row of the block log but for the
address that the task looks up. -/
structure BlockEntry where
  /-- Sinkholed name. -/
  domain : Text
  /-- Reason of the verdict, or its source when it has none. -/
  reason : Text
  /-- Verdict string. -/
  verdict : VerdictKind
  /-- Risk score of the verdict. -/
  riskScore : ℤ
  /-- Confidence of the verdict. -/
  confidence : ℤ
  /-- Imitated brand of a typosquat hit. -/
  mimicsBrand : Option Text
  /-- Address of the client. -/
  clientIp : Option Text
  /-- User the query is attributed to. -/
  userId : Option ℕ
  deriving DecidableEq

/-- Background tasks of the resolver. Each constructor is one awaited command;
the last two continue an enqueue after its first and second command. -/
inductive Task where
  | cacheSet (domain : Text) (verdict : Verdict) (ttl : ℕ)
  | resolveThenLog (entry : BlockEntry)
  | promoteToBlocklist (domain category : Text)
  | enqueueIfNew (domain : Text)
  | claimScan (domain : Text)
  | pushScan (domain : Text)
  deriving DecidableEq

/-- `BYPASS_SUFFIXES`. -/
def bypassSuffixes : List Text :=
  ["in-addr.arpa".toList,"ip6.arpa".toList,"local".toList,"localhost".toList,"arpa".toList]

/-- `_is_bypass`. -/
def isBypass (domain : Text) : Bool :=
  bypassSuffixes.any fun s => domain==s || ('.'::s).isSuffixOf domain

/-- `_parent_chain`. -/
def parentChain (domain : Text) : List Text :=
  let parts := domain.splitOn '.'
  (List.range (parts.length-1)).map fun i => join ['.'] (parts.drop i)

/-- `_looks_scannable`. -/
def looksScannable (domain : Text) (qtype : QType) : Bool :=
  (qtype==.a || qtype==.aaaa || qtype==.https) && domain.contains '.'

/-- `_category_for`. -/
def categoryFor (verdict : Verdict) : Text :=
  let src := lower verdict.source
  if src="ai".toList then "ai-confirmed".toList
  else if src="scan_error".toList then "ai-scan-error".toList
  else if src="typosquat".toList then "typosquat".toList
  else if src="cache".toList then "cache-".toList++(match verdict.verdict with
    | .safe => "safe".toList
    | .suspicious => "suspicious".toList
    | .scam => "scam".toList
    | .pending => "pending".toList)
  else if src="user_report".toList then "user-report".toList
  else if src=[] then "auto".toList
  else src

/-- `_match_chain`. -/
def matchChain (domain : Text) (s : Finset Text) : Bool :=
  (parentChain domain).any fun candidate => decide (candidate∈s)

/-- The loop of `_cache_lookup` over the candidates still to read. -/
def cacheLookupFrom (read : Text → RedisGet) : List Text → Except Failure (Option Verdict)
  | [] => .ok none
  | candidate::candidates =>
    match cacheGet (read candidate) with
    | .error failure => .error failure
    | .ok (some v) => .ok (some v)
    | .ok none => cacheLookupFrom read candidates

/-- `_cache_lookup`: the nearest entry of the parent chain. -/
def cacheLookup (read : Text → RedisGet) (domain : Text) : Except Failure (Option Verdict) :=
  cacheLookupFrom read (parentChain domain)

/-- `_servfail`, which catches what its parse and its packing raise. -/
def servfail (dns : Dnslib) (wire : Wire) : Wire :=
  match dns.parse wire with
  | some request => (dns.pack {request.reply with rcode := servfailCode}).getD []
  | none => []

/-- The sinkhole reply: the block page for A, no record for AAAA, and
NXDOMAIN for every other type. -/
def sinkholeReply (cfg : Config) (request : DNSRecord) (qtype : QType) : DNSRecord :=
  match qtype with
  | .a => {request.reply with rr := [⟨request.qname,1,cfg.blockTtl,cfg.blockIp⟩]}
  | .aaaa => request.reply
  | _ => {request.reply with rcode := nxdomainCode}

section Pipeline

variable (dns : Dnslib) (cfg : Config)

/-- `_block`. -/
def block (request : DNSRecord) (domain : Text) (qtype : QType) (verdict : Verdict)
    (clientIp : Option Text) (userId : Option ℕ) : ResolveResult×List Task :=
  let log := Task.resolveThenLog {
    domain := domain
    reason := if verdict.reason=[] then verdict.source else verdict.reason
    verdict := verdict.verdict
    riskScore := verdict.riskScore
    confidence := verdict.confidence
    mimicsBrand := none
    clientIp := clientIp
    userId := userId }
  let promote :=
    if verdict.source="blocklist".toList then []
    else [Task.promoteToBlocklist domain (categoryFor verdict)]
  (⟨dns.pack (sinkholeReply cfg request qtype),true,domain,some verdict⟩,log::promote)

/-- `_block_with_brand`. -/
def blockWithBrand (request : DNSRecord) (domain : Text) (qtype : QType) (verdict : Verdict)
    (hit : TyposquatHit) (clientIp : Option Text) (userId : Option ℕ) :
    ResolveResult×List Task :=
  let log := Task.resolveThenLog {
    domain := domain
    reason := verdict.reason
    verdict := verdict.verdict
    riskScore := verdict.riskScore
    confidence := verdict.confidence
    mimicsBrand := some hit.brand
    clientIp := clientIp
    userId := userId }
  let promote := Task.promoteToBlocklist domain ("typosquat-".toList++hit.brand)
  (⟨dns.pack (sinkholeReply cfg request qtype),true,domain,some verdict⟩,[log,promote])

/-- `_forward`. -/
def forward (net : Server → Exchange) (request : DNSRecord) (domain : Text) : ResolveResult :=
  match query net with
  | none => ⟨dns.pack {request.reply with rcode := servfailCode},false,domain,none⟩
  | some answer => ⟨some answer,false,domain,none⟩

/-- Verdict of a blocklisted name. -/
def blocklistVerdict : Verdict where
  verdict := .scam
  reason := "blocklist".toList
  source := "blocklist".toList

/-- Verdict of a typosquat hit. -/
def typosquatVerdict (hit : TyposquatHit) : Verdict where
  verdict := .scam
  reason := hit.reason
  source := "typosquat".toList
  confidence := if hit.distance=0 then 85 else 70
  riskScore := if hit.distance=0 then 90 else 75

/-- The typosquat stage on a hit: cache the verdict and sinkhole. -/
def resolveHit (request : DNSRecord) (qname : Text) (qtype : QType) (hit : TyposquatHit)
    (clientIp : Option Text) (userId : Option ℕ) : ResolveResult×List Task :=
  let verdict := typosquatVerdict hit
  let blocked := blockWithBrand dns cfg request qname qtype verdict hit clientIp userId
  (blocked.1,.cacheSet qname verdict cfg.scamTtl::blocked.2)

/-- The stages of `resolve` after the cache lookup, given what it found. -/
def resolveCached (lists : Lists) (net : Server → Exchange) (request : DNSRecord) (qname : Text)
    (qtype : QType) (cached : Option Verdict) (clientIp : Option Text) (userId : Option ℕ) :
    ResolveResult×List Task :=
  match cached.filter (·.isBlocking) with
  | some v => block dns cfg request qname qtype v clientIp userId
  | none =>
    if cached.any (·.verdict=.safe) then (forward dns net request qname,[])
    else match check lists.typosquat qname with
      | some hit => resolveHit dns cfg request qname qtype hit clientIp userId
      | none => (forward dns net request qname,
          if cached.isNone && looksScannable qname qtype then [.enqueueIfNew qname] else [])

/-- `resolve` on a parsed request with its normalized question name. -/
def resolveName (lists : Lists) (read : Text → RedisGet) (net : Server → Exchange)
    (request : DNSRecord) (qname : Text) (clientIp : Option Text) (userId : Option ℕ) :
    Except Failure (ResolveResult×List Task) :=
  let qtype := qtypeOf request.qtype
  if qname=[] ∨ isBypass qname then .ok (forward dns net request qname,[])
  else if matchChain qname lists.whitelist then .ok (forward dns net request qname,[])
  else if matchChain qname lists.blocklist then
    .ok (block dns cfg request qname qtype blocklistVerdict clientIp userId)
  else match cacheLookup read qname with
    | .error failure => .error failure
    | .ok cached =>
      .ok (resolveCached dns cfg lists net request qname qtype cached clientIp userId)

/-- The question name as the pipeline matches it. -/
def questionName (request : DNSRecord) : Text := lower (rstripChar '.' request.qname)

/-- `Resolver.resolve`. -/
def resolve (lists : Lists) (read : Text → RedisGet) (net : Server → Exchange) (wire : Wire)
    (clientIp : Option Text) (userId : Option ℕ) : Except Failure (ResolveResult×List Task) :=
  match dns.parse wire with
  | none => .ok (⟨some (servfail dns wire),false,[],none⟩,[])
  | some request =>
    resolveName dns cfg lists read net request (questionName request) clientIp userId

end Pipeline

/-- The parent chain is the chain of dot-separated suffixes. -/
theorem parentChain_eq_suffixChain (domain : Text) :
    parentChain domain=suffixChain '.' domain :=
  (segmentChain_eq_map_range '.' (domain.splitOn '.')).symm

/-- A set matches a name exactly when it holds a member of its parent chain. -/
theorem matchChain_iff {domain : Text} {s : Finset Text} :
    matchChain domain s=true ↔ ∃ candidate∈parentChain domain, candidate∈s := by
  simp only [matchChain,List.any_eq_true,decide_eq_true_eq]

/-- The domain itself and every name below it has the domain on its chain. -/
theorem mem_parentChain_of_suffix {domain name : Text} (hdot : '.'∈domain)
    (h : name=domain ∨ '.'::domain <:+ name) : domain∈parentChain name := by
  rw [parentChain_eq_suffixChain]
  exact mem_suffixChain.mpr ⟨hdot,splitOn_suffix_iff.mpr (h.imp Eq.symm id)⟩

/-- A member of the chain of a chain member is a chain member. -/
theorem parentChain_trans {first second name : Text} (hf : first∈parentChain second)
    (hs : second∈parentChain name) : first∈parentChain name := by
  rw [parentChain_eq_suffixChain] at hf hs ⊢
  have hfirst := mem_suffixChain.mp hf
  exact mem_suffixChain.mpr ⟨hfirst.1,hfirst.2.trans (mem_suffixChain.mp hs).2⟩

/-- Chain members have a dot. -/
theorem dot_mem_of_mem_parentChain {m name : Text} (h : m∈parentChain name) : '.'∈m := by
  rw [parentChain_eq_suffixChain] at h
  exact (mem_suffixChain.mp h).1

/-- A forwarded query is not marked as blocked. -/
theorem forward_blocked (dns : Dnslib) (net : Server → Exchange) (request : DNSRecord)
    (domain : Text) : (forward dns net request domain).blocked=false := by
  rw [forward]
  split <;> rfl

/-- A request that parses is resolved by its question name. -/
theorem resolve_of_parse {dns : Dnslib} {wire : Wire} {request : DNSRecord}
    (h : dns.parse wire=some request) (cfg : Config) (lists : Lists) (read : Text → RedisGet)
    (net : Server → Exchange) (clientIp : Option Text) (userId : Option ℕ) :
    resolve dns cfg lists read net wire clientIp userId=
      resolveName dns cfg lists read net request (questionName request) clientIp userId := by
  unfold resolve
  rw [h]

end ScamLens.Resolver
