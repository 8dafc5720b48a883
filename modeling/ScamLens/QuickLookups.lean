import Mathlib.Data.List.MinMax
import ScamLens.ListRefresh
import ScamLens.LookupDomains
import ScamLens.PlainMessages
import ScamLens.ResolverPolicy
import ScamLens.Tables

/-!
# The lookup endpoint next to the resolver

The endpoint that explains a block decides on its own: the seed rows of the
parent chain come first, then the cached verdict and the verdict row of the
domain itself. It reads no whitelist, and the resolver knows more reasons for
a block. The exact law of where the two agree and where they do not.
-/

namespace ScamLens.QuickLookups

open ListRefresh LookupDomains NamePolicy PlainMessages PythonText Resolver ResolverPolicy
  ScanVerdicts Tables Upstream VerdictCache

/-- Verdicts of a response. -/
inductive ReportedVerdict where
  /-- One of the strings the services write. -/
  | known (kind : VerdictKind)
  /-- `"unknown"`. -/
  | unknown
  deriving DecidableEq

/-- `CheckResponse` -/
structure CheckResponse where
  /-- Normalized domain. -/
  domain : Text
  /-- Verdict. -/
  verdict : ReportedVerdict
  /-- Risk score. -/
  riskScore : Option ℤ := none
  /-- Confidence. -/
  confidence : Option ℤ := none
  /-- Reason. -/
  reason : Option Text := none
  /-- Imitated brand. -/
  mimicsBrand : Option Text := none
  /-- Address in the latest row of the block log that has one. -/
  resolvedIp : Option Text := none
  /-- Where the verdict comes from. -/
  source : Text
  /-- Whether it was cached. -/
  cached : Bool
  deriving DecidableEq

/-- How a request ends. -/
inductive CheckOutcome where
  /-- The 400 of a domain that is not accepted. -/
  | invalidDomain
  /-- An exception of the JSON decoder, which becomes a 500. -/
  | raised
  /-- A response, and the domains pushed on the scan queue. -/
  | answered (response : CheckResponse) (pushed : List Text)
  deriving DecidableEq

/-- `_blocklist_match`: the category of the longest domain among the candidates
that has a seed row. -/
def blocklistMatch (db : Database) (domain : Text) : Option Text :=
  (((parentChain domain).filter fun m => decide (m∈db.blocklistSeed)).argmax List.length).bind
    fun m => (db.blocklistSeed.lookup m).bind (·.category)

/-- `_latest_resolved_ip` -/
def latestResolvedIp (db : Database) (domain : Text) : Option Text :=
  (db.blockedAttempts.filter fun row =>
    row.entry.domain=domain && row.resolvedIp.isSome).getLast?.bind (·.resolvedIp)

/-- The last steps of `check`: the verdict row, or else a scan. -/
def checkRow (db : Database) (normalized : Text) : CheckOutcome :=
  match db.domainVerdicts.lookup normalized with
  | some row => .answered {
      domain := normalized
      verdict := .known row.verdict.kind
      riskScore := some row.riskScore
      confidence := some row.confidence
      reason := row.reasons.head?
      mimicsBrand := row.mimicsBrand
      resolvedIp := latestResolvedIp db normalized
      source := row.source
      cached := false } []
  | none => .answered {
      domain := normalized
      verdict := .known .pending
      source := "scan_enqueued".toList
      cached := false } [normalized]

/-- `check` on a normalized domain: the blocklist, the cached verdict, and the
last steps. -/
def checkNormalized (db : Database) (raw : Text → Option RawValue) (normalized : Text) :
    CheckOutcome :=
  match (blocklistMatch db normalized).filter (· != []) with
  | some bl => .answered {
      domain := normalized
      verdict := .known .scam
      riskScore := some 100
      confidence := some 100
      reason := some ("on blocklist (".toList++bl++")".toList)
      resolvedIp := latestResolvedIp db normalized
      source := "blocklist".toList
      cached := false } []
  | none =>
    match raw normalized with
    | some .malformed => .raised
    | some (.object data) => .answered {
        domain := normalized
        verdict := data.verdict.elim .unknown .known
        riskScore := data.riskScore
        confidence := data.confidence
        reason := data.reason
        mimicsBrand := data.mimicsBrand
        resolvedIp := latestResolvedIp db normalized
        source := data.source.getD "cache".toList
        cached := true } []
    | some .empty => checkRow db normalized
    | none => checkRow db normalized

/-- `check` -/
def check (db : Database) (raw : Text → Option RawValue) (domain : Text) : CheckOutcome :=
  match lookupDomain domain with
  | none => .invalidDomain
  | some normalized => checkNormalized db raw normalized

/-- The response has a verdict that stands for a block. -/
def CheckOutcome.Reports (outcome : CheckOutcome) : Prop :=
  ∃ response pushed, outcome=.answered response pushed ∧
    (response.verdict=.known .scam ∨ response.verdict=.known .suspicious)

/-- The lists of the resolver, freshly loaded from the database. -/
def freshLists (before : Lists) (db : Database) : Lists :=
  refreshPass before
    ⟨some db.selectBlocklist,some db.selectWhitelist,some db.selectBrandDomains,some db.dohTokens⟩

/-- The resolver sinkholes a query. -/
def Blocks (dns : Dnslib) (cfg : Config) (lists : Lists) (raw : Text → Option RawValue)
    (net : Server → Exchange) (wire : Wire) (clientIp : Option Text) (userId : Option ℕ) : Prop :=
  ∃ out, resolve dns cfg lists (fun m => .reply (raw m)) net wire clientIp userId=.ok out ∧
    out.1.blocked=true

/-- A verdict key holds a verdict. -/
def Holds (raw : Text → Option RawValue) (domain : Text) (kind : VerdictKind) : Prop :=
  ∃ data, raw domain=some (.object data) ∧ data.verdict=some kind

/-- A verdict key holds a blocking verdict. -/
def CachedBlocking (raw : Text → Option RawValue) (domain : Text) : Prop :=
  ∃ kind, Holds raw domain kind ∧ kind.isBlocking=true

/-- A verdict key holds nothing. -/
def Uncached (raw : Text → Option RawValue) (domain : Text) : Prop :=
  raw domain=none ∨ raw domain=some .empty

/-- The first verdict key along the chain that holds anything holds a verdict. -/
def FirstHolds (raw : Text → Option RawValue) (domain : Text) (kind : VerdictKind) : Prop :=
  ∃ near m far, parentChain domain=near++m::far ∧ (∀ n∈near, Uncached raw n) ∧ Holds raw m kind

/-- A reason for a block that the endpoint does not look at, where it has none
of its own to report. -/
inductive ResolverOnly (before : Lists) (db : Database) (raw : Text → Option RawValue)
    (domain : Text) : Prop where
  /-- A chain member with a seed row: the longest one has no category. -/
  | category {m : Text} (hm : m∈parentChain domain) (hseed : m∈db.blocklistSeed)
  /-- A blocking verdict row of a parent, or of the domain behind a cached value. -/
  | verdictRow {m : Text} (hm : m∈parentChain domain) (h : db.HasBlockingRow m)
  /-- A blocking verdict of a parent, which is the first that is cached. -/
  | parentCache {kind : VerdictKind} (h : FirstHolds raw domain kind)
    (hblocking : kind.isBlocking=true)
  /-- A typosquat of a brand, unless the first cached verdict is safe. -/
  | squat (h : (Typosquat.check (freshLists before db).typosquat domain).isSome=true)
    (hfirst : (∀ m∈parentChain domain, Uncached raw m) ∨
      ∃ kind, FirstHolds raw domain kind ∧ kind≠.safe)

section Reports

variable {db : Database} {raw : Text → Option RawValue} {domain : Text}

/-- The first member of a chain is the name itself. -/
theorem parentChain_eq_cons (h : '.'∈domain) : ∃ parents, parentChain domain=domain::parents := by
  have htwo := SeparatorChains.two_le_length_splitOn.mpr h
  obtain ⟨n,hn⟩ : ∃ n, (domain.splitOn '.').length-1=n+1 :=
    ⟨(domain.splitOn '.').length-2,by omega⟩
  have hjoin : join ['.'] (domain.splitOn '.')=domain := List.intercalate_splitOn '.'
  rw [parentChain,hn,List.range_succ_eq_map,List.map_cons,List.drop_zero,hjoin]
  exact ⟨_,rfl⟩

/-- A category is matched for a domain exactly when the longest chain member
with a seed row has one. -/
theorem blocklistMatch_eq_some {category : Text} :
    blocklistMatch db domain=some category ↔
      ∃ m∈parentChain domain, ∃ row, db.blocklistSeed.lookup m=some row ∧
        row.category=some category ∧
        ((parentChain domain).filter fun m => decide (m∈db.blocklistSeed)).argmax List.length=
          some m := by
  rw [blocklistMatch,Option.bind_eq_some_iff]
  constructor
  · intro h
    obtain ⟨m,hm,hcategory⟩ := h
    obtain ⟨row,hrow,hcategory⟩ := Option.bind_eq_some_iff.mp hcategory
    exact ⟨m,(List.mem_filter.mp (List.argmax_mem hm)).1,row,hrow,hcategory,hm⟩
  · intro h
    obtain ⟨m,-,row,hrow,hcategory,hm⟩ := h
    exact ⟨m,hm,Option.bind_eq_some_iff.mpr ⟨row,hrow,hcategory⟩⟩

/-- The endpoint names a category of the blocklist. -/
def Named (db : Database) (domain : Text) : Prop :=
  ∃ category, blocklistMatch db domain=some category ∧ category≠[]

/-- What is named has a seed row. -/
theorem Named.exists_seed (h : Named db domain) : ∃ m∈parentChain domain, m∈db.blocklistSeed := by
  obtain ⟨category,hmatch,-⟩ := h
  obtain ⟨m,hm,row,hrow,-⟩ := blocklistMatch_eq_some.mp hmatch
  exact ⟨m,hm,Finmap.mem_of_lookup_eq_some hrow⟩

/-- A verdict string stands for a block when it is one of two. -/
theorem isBlocking_iff {kind : VerdictKind} :
    kind.isBlocking=true ↔ kind=.scam ∨ kind=.suspicious := by
  cases kind <;> simp [VerdictKind.isBlocking]

/-- A response reports by its verdict. -/
theorem reports_answered {response : CheckResponse} {pushed : List Text} :
    (CheckOutcome.answered response pushed).Reports ↔
      response.verdict=.known .scam ∨ response.verdict=.known .suspicious := by
  constructor
  · intro h
    obtain ⟨other,others,he,hverdict⟩ := h
    cases he
    exact hverdict
  · exact fun h => ⟨response,pushed,rfl,h⟩

/-- A name of the blocklist is a category that is not empty. -/
theorem filter_blocklistMatch :
    (∃ category, (blocklistMatch db domain).filter (· != [])=some category) ↔
      Named db domain := by
  simp only [Option.filter_eq_some_iff,bne_iff_ne,Named]

/-- The verdict row is reported when it blocks. -/
theorem checkRow_reports_iff : (checkRow db domain).Reports ↔ db.HasBlockingRow domain := by
  rw [checkRow,Database.HasBlockingRow]
  cases hlookup : db.domainVerdicts.lookup domain with
  | none =>
    dsimp only
    rw [reports_answered]
    refine iff_of_false (fun h => ?_) fun h => ?_
    · rcases h with h|h <;> cases h
    · obtain ⟨row,hrow,-⟩ := h
      cases hrow
  | some row =>
    dsimp only
    rw [reports_answered]
    have hkind : ∀ c : ScanClass, (ReportedVerdict.known c.kind=.known .scam ∨
        ReportedVerdict.known c.kind=.known .suspicious) ↔ c=.scam ∨ c=.suspicious := by
      intro c
      cases c <;> decide
    rw [hkind]
    constructor
    · exact fun h => ⟨row,rfl,h⟩
    · intro h
      obtain ⟨other,hother,hverdict⟩ := h
      rwa [Option.some.inj hother]

/-- A cached object blocks if the verdict it is reported with does. -/
theorem cachedBlocking_object {data : CachedJson} (hdata : raw domain=some (.object data)) :
    data.verdict.elim ReportedVerdict.unknown .known=.known .scam ∨
        data.verdict.elim ReportedVerdict.unknown .known=.known .suspicious ↔
      CachedBlocking raw domain := by
  constructor
  · intro h
    cases hverdict : data.verdict with
    | none =>
      rw [hverdict] at h
      rcases h with h|h <;> cases h
    | some kind =>
      rw [hverdict] at h
      refine ⟨kind,⟨data,hdata,hverdict⟩,isBlocking_iff.mpr ?_⟩
      exact h.imp ReportedVerdict.known.inj ReportedVerdict.known.inj
  · intro h
    obtain ⟨kind,⟨other,hother,hverdict⟩,hblocking⟩ := h
    rw [hdata] at hother
    cases hother
    rw [hverdict]
    exact (isBlocking_iff.mp hblocking).imp (congrArg _) (congrArg _)

/-- What is not an object is no blocking verdict. -/
theorem Uncached.not_cachedBlocking (h : Uncached raw domain) : ¬CachedBlocking raw domain := by
  rintro ⟨kind,⟨data,hdata,-⟩,-⟩
  rcases h with hraw|hraw <;> rw [hraw] at hdata <;> cases hdata

/-- Nothing on the blocklist and nothing cached leave the last steps. -/
theorem checkNormalized_uncached (hmatch : (blocklistMatch db domain).filter (· != [])=none)
    (h : Uncached raw domain) : checkNormalized db raw domain=checkRow db domain := by
  rw [checkNormalized,hmatch]
  rcases h with hraw|hraw <;> rw [hraw]

/-- Nothing on the blocklist leaves a cached value to report by. -/
theorem checkNormalized_cached_iff (hmatch : (blocklistMatch db domain).filter (· != [])=none)
    (h : ¬Uncached raw domain) :
    (checkNormalized db raw domain).Reports ↔ CachedBlocking raw domain := by
  rw [checkNormalized,hmatch]
  cases hdata : raw domain with
  | none => exact absurd (Or.inl hdata) h
  | some value =>
    cases value with
    | empty => exact absurd (Or.inr hdata) h
    | malformed =>
      refine iff_of_false (fun hreports => ?_) fun hblocking => ?_
      · obtain ⟨response,pushed,he,-⟩ := hreports
        cases he
      · obtain ⟨kind,⟨data,hobject,-⟩,-⟩ := hblocking
        rw [hdata] at hobject
        cases hobject
    | object data =>
      dsimp only
      rw [reports_answered]
      exact cachedBlocking_object hdata

/-- The endpoint reports a domain that it names, that has a blocking cached
verdict, or that has a blocking verdict row and nothing cached. -/
theorem checkNormalized_reports_iff :
    (checkNormalized db raw domain).Reports ↔
      Named db domain ∨ CachedBlocking raw domain ∨
        (Uncached raw domain ∧ db.HasBlockingRow domain) := by
  cases hmatch : (blocklistMatch db domain).filter (· != []) with
  | some category =>
    rw [checkNormalized,hmatch]
    dsimp only
    rw [reports_answered]
    exact iff_of_true (Or.inl rfl) (Or.inl (filter_blocklistMatch.mp ⟨category,hmatch⟩))
  | none =>
    have hnamed : ¬Named db domain := by
      intro h
      obtain ⟨category,hcategory⟩ := filter_blocklistMatch.mpr h
      rw [hmatch] at hcategory
      cases hcategory
    by_cases hraw : Uncached raw domain
    · rw [checkNormalized_uncached hmatch hraw,checkRow_reports_iff]
      simp only [hnamed,hraw.not_cachedBlocking,hraw,false_or,true_and]
    · rw [checkNormalized_cached_iff hmatch hraw]
      simp only [hnamed,hraw,false_or,false_and,or_false]

end Reports

section Agreement

variable (dns : Dnslib) (cfg : Config) (before : Lists) (db : Database)
  (raw : Text → Option RawValue) (net : Server → Exchange) {wire : Wire} {request : DNSRecord}
  (clientIp : Option Text) (userId : Option ℕ) {domain : Text}

/-- The policy of freshly loaded lists. -/
def freshPolicy : Policy Text := policyOf (freshLists before db) fun m => .reply (raw m)

/-- Exemption by freshly loaded lists. -/
theorem freshPolicy_exempt_iff (hne : domain≠[]) (hbypass : isBypass domain=false) :
    (freshPolicy before db raw).Exempt domain ↔
      ∃ m∈parentChain domain, m∈db.whitelist := by
  have hlive : ¬(domain=[] ∨ isBypass domain=true) := by
    intro h
    rcases h with h|h
    · exact hne h
    · rw [hbypass] at h
      cases h
  constructor
  · intro h
    obtain ⟨m,hm,hw⟩ := h.resolve_left hlive
    exact ⟨m,hm,db.mem_selectWhitelist.mp hw⟩
  · intro h
    obtain ⟨m,hm,hw⟩ := h
    exact Or.inr ⟨m,hm,db.mem_selectWhitelist.mpr hw⟩

/-- A verdict key holds nothing, a verdict, or what the resolver cannot read. -/
theorem cacheGet_cases (m : Text) :
    Uncached raw m ∧ cacheGet (.reply (raw m))=.ok none ∨
      (∃ kind v, Holds raw m kind ∧ v.verdict=kind ∧ cacheGet (.reply (raw m))=.ok (some v)) ∨
      ∃ failure, cacheGet (.reply (raw m))=.error failure ∧ ¬Uncached raw m ∧
        ∀ kind, ¬Holds raw m kind := by
  rw [Uncached]
  cases hraw : raw m with
  | none => exact .inl ⟨.inl rfl,rfl⟩
  | some value =>
    cases value with
    | empty => exact .inl ⟨.inr rfl,rfl⟩
    | malformed =>
      refine .inr (.inr ⟨_,rfl,by simp,fun kind ⟨data,hdata,_⟩ => ?_⟩)
      rw [hraw] at hdata
      cases hdata
    | object data =>
      cases hverdict : data.verdict with
      | some kind =>
        refine .inr (.inl ⟨kind,_,⟨data,hraw,hverdict⟩,?_,by rw [cacheGet,hverdict]⟩)
        rfl
      | none =>
        refine .inr (.inr ⟨.missingVerdict,by rw [cacheGet,hverdict],by simp,?_⟩)
        rintro kind ⟨other,hother,hkind⟩
        rw [hraw] at hother
        cases hother
        rw [hverdict] at hkind
        cases hkind

/-- What is held can be read. -/
theorem Holds.readableKind {m : Text} {kind : VerdictKind} (h : Holds raw m kind) :
    readableKind (fun m => .reply (raw m)) m=some kind := by
  obtain ⟨data,hdata,hverdict⟩ := h
  obtain ⟨v,hv,hkind⟩ := cacheGet_of_verdict hverdict
  rw [ResolverPolicy.readableKind,hdata,hv]
  exact congrArg some hkind

/-- Nothing is read where nothing is held. -/
theorem Uncached.readableKind {m : Text} (h : Uncached raw m) :
    readableKind (fun m => .reply (raw m)) m=none := by
  rw [ResolverPolicy.readableKind]
  rcases h with hraw|hraw <;> rw [hraw] <;> rfl

/-- The walk along the candidates meets nothing that cannot be read exactly if
all their keys hold nothing or the first that holds anything holds a verdict. -/
theorem readableFirst_iff (candidates : List Text) :
    ReadableFirst (fun m => .reply (raw m)) candidates ↔
      (∀ m∈candidates, Uncached raw m) ∨ ∃ kind near m far, candidates=near++m::far ∧
        (∀ n∈near, Uncached raw n) ∧ Holds raw m kind := by
  induction candidates with
  | nil => exact iff_of_true trivial (.inl (List.forall_mem_nil _))
  | cons candidate candidates ih =>
    rw [ReadableFirst]
    rcases cacheGet_cases raw candidate with
      ⟨hnothing,hget⟩|⟨kind,v,hholds,-,hget⟩|⟨failure,hget,hsome,hnone⟩
    · rw [hget]
      dsimp only
      rw [ih,List.forall_mem_cons,and_iff_right hnothing]
      refine or_congr_right ⟨?_,?_⟩
      · rintro ⟨kind,near,m,far,rfl,hnear,hholds⟩
        exact ⟨kind,candidate::near,m,far,rfl,List.forall_mem_cons.mpr ⟨hnothing,hnear⟩,hholds⟩
      · rintro ⟨kind,near,m,far,hsplit,hnear,hholds⟩
        cases near with
        | nil =>
          obtain ⟨rfl,-⟩ := List.cons.inj hsplit
          have hread := hholds.readableKind
          rw [hnothing.readableKind] at hread
          cases hread
        | cons n near =>
          obtain ⟨-,hrest⟩ := List.cons.inj hsplit
          exact ⟨kind,near,m,far,hrest,(List.forall_mem_cons.mp hnear).2,hholds⟩
    · rw [hget]
      exact iff_of_true trivial
        (.inr ⟨kind,[],candidate,candidates,rfl,List.forall_mem_nil _,hholds⟩)
    · rw [hget]
      refine iff_of_false id ?_
      rintro (hall|⟨kind,near,m,far,hsplit,hnear,hholds⟩)
      · exact hsome (hall candidate List.mem_cons_self)
      · cases near with
        | nil => exact hnone kind ((List.cons.inj hsplit).1 ▸ hholds)
        | cons n near =>
          exact hsome ((List.cons.inj hsplit).1 ▸ (List.forall_mem_cons.mp hnear).1)

/-- The resolver sinkholes a query exactly when its policy does and no entry
is in the way. -/
theorem blocks_iff (hparse : dns.parse wire=some request)
    (hname : questionName request=domain) :
    Blocks dns cfg (freshLists before db) raw net wire clientIp userId ↔
      (freshPolicy before db raw).Sinkholes domain ∧
        Completes (freshLists before db) (fun m => .reply (raw m)) domain := by
  rw [Blocks,resolve_of_parse hparse,hname]
  constructor
  · intro h
    obtain ⟨out,hout,hblocked⟩ := h
    have hdecides := resolveName_decides dns cfg (freshLists before db) (fun m => .reply (raw m))
      net request clientIp userId hout
    refine ⟨?_,(resolveName_returns_iff dns cfg _ _ net request clientIp userId domain).mp
      ⟨out,hout⟩⟩
    by_contra hs
    rw [hdecides.forwarded hs,forward_blocked] at hblocked
    cases hblocked
  · intro h
    obtain ⟨out,hout⟩ := (resolveName_returns_iff dns cfg _ _ net request clientIp userId
      domain).mpr h.2
    have hdecides := resolveName_decides dns cfg (freshLists before db) (fun m => .reply (raw m))
      net request clientIp userId hout
    exact ⟨out,hout,(hdecides.sinkholed h.1).1⟩

/-- The walk along the chain of a name takes the first verdict. -/
theorem FirstHolds.walk {raw : Text → Option RawValue} {kind : VerdictKind}
    (h : FirstHolds raw domain kind) :
    ReadableFirst (fun m => .reply (raw m)) (parentChain domain) ∧
      (freshPolicy before db raw).nearest domain=some kind := by
  obtain ⟨near,m,far,hchain,hnear,hholds⟩ := h
  refine ⟨(readableFirst_iff raw _).mpr (.inr ⟨kind,near,m,far,hchain,hnear,hholds⟩),?_⟩
  have hsplit : (freshPolicy before db raw).chain domain=near++m::far := hchain
  exact Policy.nearest_eq_of_split hsplit (fun n hn => (hnear n hn).readableKind)
    hholds.readableKind

/-- Without a verdict it finds none. -/
theorem nearest_of_uncached (h : ∀ m∈parentChain domain, Uncached raw m) :
    (freshPolicy before db raw).nearest domain=none :=
  List.findSome?_eq_none_iff.mpr fun m hm => (h m hm).readableKind

/-- What the endpoint reports is condemned, and nothing is in the way. -/
theorem condemned_of_reports (hdot : '.'∈domain) (hbypass : isBypass domain=false)
    (hwhitelist : ¬∃ m∈parentChain domain, m∈db.whitelist)
    (h : (checkNormalized db raw domain).Reports) :
    (freshPolicy before db raw).Sinkholes domain ∧
      Completes (freshLists before db) (fun m => .reply (raw m)) domain := by
  have hexempt := (freshPolicy_exempt_iff before db raw (List.ne_nil_of_mem hdot)
    hbypass).not.mpr hwhitelist
  obtain ⟨parents,hchain⟩ := parentChain_eq_cons hdot
  have hself : domain∈parentChain domain := by
    rw [hchain]
    exact List.mem_cons_self
  have hlisted : ∀ m∈parentChain domain, m∈db.selectBlocklist →
      (freshPolicy before db raw).Sinkholes domain ∧
        Completes (freshLists before db) (fun m => .reply (raw m)) domain := by
    intro m hm hl
    exact ⟨⟨hexempt,Or.inl ⟨m,hm,hl⟩⟩,Or.inr (Or.inl ⟨m,hm,hl⟩)⟩
  rcases checkNormalized_reports_iff.mp h with hnamed|hcached|⟨-,hrow⟩
  · obtain ⟨m,hm,hseed⟩ := hnamed.exists_seed
    exact hlisted m hm (db.mem_selectBlocklist.mpr (Or.inl hseed))
  · obtain ⟨kind,hholds,hblocking⟩ := hcached
    have hfirst : FirstHolds raw domain kind :=
      ⟨[],domain,parents,hchain,List.forall_mem_nil _,hholds⟩
    obtain ⟨hread,hnearest⟩ := hfirst.walk before db
    exact ⟨⟨hexempt,Or.inr (Or.inl ⟨kind,hnearest,hblocking⟩)⟩,Or.inr (Or.inr hread)⟩
  · exact hlisted domain hself (db.mem_selectBlocklist.mpr (Or.inr (Or.inl hrow)))

/-- Where the endpoint reports nothing and the whitelist and the reports say
nothing, the resolver sinkholes for exactly the reasons it alone looks at. -/
theorem sinkholes_iff_resolverOnly (hdot : '.'∈domain) (hbypass : isBypass domain=false)
    (hwhitelist : ¬∃ m∈parentChain domain, m∈db.whitelist)
    (hreports : ∀ m∈parentChain domain, ¬db.HasConfirmedReport m) :
    (freshPolicy before db raw).Sinkholes domain ∧
        Completes (freshLists before db) (fun m => .reply (raw m)) domain ↔
      ResolverOnly before db raw domain := by
  have hexempt := (freshPolicy_exempt_iff before db raw (List.ne_nil_of_mem hdot)
    hbypass).not.mpr hwhitelist
  constructor
  · rintro ⟨⟨-,hcondemned⟩,hcompletes⟩
    by_cases hlisted : ∃ m∈parentChain domain, m∈db.selectBlocklist
    · obtain ⟨m,hm,hl⟩ := hlisted
      rcases db.mem_selectBlocklist.mp hl with hseed|hrow|hreport
      · exact .category hm hseed
      · exact .verdictRow hm hrow
      · exact absurd hreport (hreports m hm)
    have hfirst := (hcompletes.resolve_left hexempt).resolve_left hlisted
    rcases (readableFirst_iff raw _).mp hfirst with hnothing|⟨kind,near,m,far,hchain,hnear,hholds⟩
    · have hnearest := nearest_of_uncached before db raw hnothing
      rcases hcondemned.resolve_left hlisted with ⟨kind,hkind,-⟩|⟨-,hsquat⟩
      · rw [hnearest] at hkind
        cases hkind
      · exact .squat hsquat (.inl hnothing)
    · have hholds : FirstHolds raw domain kind := ⟨near,m,far,hchain,hnear,hholds⟩
      have hnearest := (hholds.walk before db).2
      rcases hcondemned.resolve_left hlisted with ⟨other,hother,hblocking⟩|⟨hsafe,hsquat⟩
      · rw [hnearest] at hother
        cases hother
        exact .parentCache hholds hblocking
      · rw [hnearest] at hsafe
        exact .squat hsquat (.inr ⟨kind,hholds,fun h => hsafe (congrArg some h)⟩)
  · have hlisted : ∀ m∈parentChain domain, m∈db.selectBlocklist →
        (freshPolicy before db raw).Sinkholes domain ∧
          Completes (freshLists before db) (fun m => .reply (raw m)) domain :=
      fun m hm hl => ⟨⟨hexempt,Or.inl ⟨m,hm,hl⟩⟩,Or.inr (Or.inl ⟨m,hm,hl⟩)⟩
    rintro (⟨hm,hseed⟩|⟨hm,hrow⟩|⟨hholds,hblocking⟩|⟨hsquat,hnothing|⟨kind,hholds,hsafe⟩⟩)
    · exact hlisted _ hm (db.mem_selectBlocklist.mpr (.inl hseed))
    · exact hlisted _ hm (db.mem_selectBlocklist.mpr (.inr (.inl hrow)))
    · obtain ⟨hread,hnearest⟩ := hholds.walk before db
      exact ⟨⟨hexempt,.inr (.inl ⟨_,hnearest,hblocking⟩)⟩,.inr (.inr hread)⟩
    · have hnearest := nearest_of_uncached before db raw hnothing
      exact ⟨⟨hexempt,.inr (.inr ⟨by rw [hnearest]; exact nofun,hsquat⟩)⟩,
        .inr (.inr ((readableFirst_iff raw _).mpr (.inl hnothing)))⟩
    · obtain ⟨hread,hnearest⟩ := hholds.walk before db
      refine ⟨⟨hexempt,.inr (.inr ⟨?_,hsquat⟩)⟩,.inr (.inr hread)⟩
      rw [hnearest]
      exact fun h => hsafe (Option.some.inj h)

/-- Lookup and resolver next to each other. The endpoint reports a domain that
it names, that has a blocking cached verdict, or that has a blocking verdict row
and nothing cached. With a whitelisted chain member nothing is sinkholed; without
one, what is reported is sinkholed, and what is not reported is sinkholed, if no
chain member has a confirmed report, exactly for the reasons that only the
resolver looks at. -/
theorem check_agrees {accepted : Text} (haccepted : lookupDomain accepted=some domain)
    (hbypass : isBypass domain=false) (hparse : dns.parse wire=some request)
    (hname : questionName request=domain) :
    ((check db raw accepted).Reports ↔ Named db domain ∨ CachedBlocking raw domain ∨
      (Uncached raw domain ∧ db.HasBlockingRow domain)) ∧
    ((∃ m∈parentChain domain, m∈db.whitelist) →
      ¬Blocks dns cfg (freshLists before db) raw net wire clientIp userId) ∧
    ((¬∃ m∈parentChain domain, m∈db.whitelist) →
      ((check db raw accepted).Reports →
        Blocks dns cfg (freshLists before db) raw net wire clientIp userId) ∧
      (¬(check db raw accepted).Reports → (∀ m∈parentChain domain, ¬db.HasConfirmedReport m) →
        (Blocks dns cfg (freshLists before db) raw net wire clientIp userId ↔
          ResolverOnly before db raw domain))) := by
  have hdot := dot_mem_of_lookupDomain haccepted
  have hcheck : check db raw accepted=checkNormalized db raw domain := by
    rw [check,haccepted]
  rw [blocks_iff dns cfg before db raw net clientIp userId hparse hname,hcheck]
  refine ⟨checkNormalized_reports_iff,fun hw hblocks => ?_,fun hw => ⟨fun hreports => ?_,
    fun _ hreports => sinkholes_iff_resolverOnly before db raw hdot hbypass hw hreports⟩⟩
  · exact hblocks.1.1 ((freshPolicy_exempt_iff before db raw (List.ne_nil_of_mem hdot)
      hbypass).mpr hw)
  · exact condemned_of_reports before db raw hdot hbypass hw hreports

end Agreement

/-- Lists of a resolver that has just started. -/
def emptyLists : Lists := ⟨∅,∅,⟨[],fun _ _ _ => false⟩,∅⟩

/-- A scam that only a scan of the parent knows of. -/
def scannedParent : Database :=
  { Database.init with
    domainVerdicts := Finmap.singleton "ok.com".toList
      ⟨.scam,90,90,[],none,"ai".toList⟩ }

/-- The resolver sinkholes below it, which the endpoint does not report. -/
theorem scannedParent_agrees :
    ¬(check scannedParent (fun _ => none) "Login.ok.com".toList).Reports ∧
      Blocks plainDns defaultConfig (freshLists emptyLists scannedParent) (fun _ => none)
        (fun _ => ⟨.timeout,.timeout⟩) (aQuery "login.ok.com".toList) none none := by
  have hparse : plainDns.parse (aQuery "login.ok.com".toList)=
      some (aQuestion "login.ok.com".toList) := by decide +kernel
  have haccepted : lookupDomain "Login.ok.com".toList=some "login.ok.com".toList := by
    decide +kernel
  obtain ⟨hreports,-,hlive⟩ := check_agrees plainDns defaultConfig emptyLists scannedParent
    (fun _ => none) (fun _ => ⟨.timeout,.timeout⟩) none none haccepted (by decide) hparse
    (by decide +kernel)
  have hnot : ¬(check scannedParent (fun _ => none) "Login.ok.com".toList).Reports := by
    rw [hreports]
    rintro (⟨category,hmatch,-⟩|⟨kind,⟨data,hdata,-⟩,-⟩|⟨-,row,hrow,-⟩)
    · have hnone : blocklistMatch scannedParent "login.ok.com".toList=none := by decide +kernel
      rw [hnone] at hmatch
      cases hmatch
    · cases hdata
    · have hnone : scannedParent.domainVerdicts.lookup "login.ok.com".toList=none := by decide
      rw [hnone] at hrow
      cases hrow
  obtain ⟨-,hblocks⟩ := hlive fun ⟨m,_,hm⟩ => absurd hm Finmap.notMem_empty
  refine ⟨hnot,(hblocks hnot fun m _ ⟨id,row,hrow,_⟩ => ?_).mpr ?_⟩
  · rw [scannedParent,Database.init,Finmap.lookup_empty] at hrow
    cases hrow
  · exact .verdictRow (m := "ok.com".toList) (by decide +kernel)
      ⟨_,Finmap.lookup_singleton_eq,.inl rfl⟩

/-- A scam below a whitelisted domain. -/
def whitelistedParent : Database :=
  { Database.init with
    blocklistSeed := Finmap.singleton "login.ok.com".toList ⟨some "manual".toList,none,none⟩
    whitelist := Finmap.singleton "ok.com".toList ⟨none,none⟩ }

/-- The endpoint reports a scam below a whitelisted domain, which the resolver
forwards. -/
theorem whitelisted_scam_disagrees : ¬∀ (db : Database) (raw : Text → Option RawValue)
    (accepted domain : Text) (wire : Wire) (request : DNSRecord),
    lookupDomain accepted=some domain → isBypass domain=false →
    plainDns.parse wire=some request → questionName request=domain →
    ((check db raw accepted).Reports ↔
      Blocks plainDns defaultConfig (freshLists emptyLists db) raw (fun _ => ⟨.timeout,.timeout⟩)
        wire none none) := by
  intro h
  have hboth := h whitelistedParent (fun _ => none) "login.ok.com".toList "login.ok.com".toList
    (aQuery "login.ok.com".toList) (aQuestion "login.ok.com".toList) (by decide +kernel)
    (by decide) (by decide +kernel) (by decide +kernel)
  have hreports : (check whitelistedParent (fun _ => none) "login.ok.com".toList).Reports := by
    refine ⟨{
      domain := "login.ok.com".toList
      verdict := .known .scam
      riskScore := some 100
      confidence := some 100
      reason := some "on blocklist (manual)".toList
      source := "blocklist".toList
      cached := false },[],?_,Or.inl rfl⟩
    decide +kernel
  obtain ⟨out,hout,hblocked⟩ := hboth.mp hreports
  have hresolve : (resolve plainDns defaultConfig (freshLists emptyLists whitelistedParent)
      (fun _ => .reply none) (fun _ => ⟨.timeout,.timeout⟩) (aQuery "login.ok.com".toList)
      none none).toOption.map (·.1.blocked)=some false := by decide +kernel
  rw [hout] at hresolve
  have hforwarded : out.1.blocked=false := Option.some.inj hresolve
  rw [hblocked] at hforwarded
  cases hforwarded

end ScamLens.QuickLookups
