import ScamLens.ResolverPolicy
import ScamLens.ServiceFrames

/-!
# How a state answers queries

A query asked in a state resolves against the lists in memory and against what
Redis holds at that second. The kinds of answers are stated here for every
spelling of a question, every client and every behaviour of the network.
-/

namespace ScamLens.Answers

open ExpiringStores NamePolicy PythonText Resolver ResolverPolicy Services Upstream VerdictCache

/-- The cache reads of a query; Redis may refuse each of them. -/
def cacheReads (s : Deployment) (up : Text → Bool) (domain : Text) : RedisGet :=
  s.redis.getVerdict s.now (up domain) domain

/-- The live cache entry of a domain. -/
def liveEntry (s : Deployment) (domain : Text) : Option CachedJson :=
  getLive s.redis.verdicts s.now domain

/-- A read that gets through returns the verdict of the live entry. -/
theorem readableKind_cacheReads {s : Deployment} {up : Text → Bool} {domain : Text}
    (hup : up domain=true) :
    readableKind (cacheReads s up) domain=(liveEntry s domain).bind (·.verdict) := by
  unfold readableKind cacheReads liveEntry
  rw [hup,getVerdict_up]
  cases getLive s.redis.verdicts s.now domain with
  | none => rfl
  | some data =>
    rw [Option.bind_some,Option.map_some,cacheGet]
    cases hv : data.verdict <;> rfl

/-- A verdict that was read is the verdict of a live entry. -/
theorem live_of_readableKind {s : Deployment} {up : Text → Bool} {domain : Text}
    {kind : VerdictKind} (h : readableKind (cacheReads s up) domain=some kind) :
    ∃ data, liveEntry s domain=some data ∧ data.verdict=some kind := by
  cases hup : up domain with
  | false =>
    rw [readableKind,cacheReads,hup] at h
    cases h
  | true =>
    rw [readableKind_cacheReads hup] at h
    exact Option.bind_eq_some_iff.mp h

/-- With Redis up, a domain whose live entry has a verdict can be read. -/
theorem readable_of_verdict {s : Deployment} {domain : Text}
    (h : ∀ data, liveEntry s domain=some data → ∃ kind, data.verdict=some kind) :
    ∃ found, cacheGet (cacheReads s (fun _ => true) domain)=.ok found := by
  rw [cacheReads,getVerdict_up]
  cases hl : getLive s.redis.verdicts s.now domain with
  | none => exact ⟨none,rfl⟩
  | some data =>
    obtain ⟨kind,hkind⟩ := h data hl
    obtain ⟨v,hv,-⟩ := cacheGet_of_verdict hkind
    exact ⟨some v,hv⟩

section Questions

variable (dns : Dnslib) (cfg : Config) (s : Deployment) (domain : Text)

/-- Every query for the domain is sinkholed, whatever fails. -/
def BlocksQueries : Prop :=
  ∀ wire request clientIp userId net up, dns.parse wire=some request →
    questionName request=domain →
      ∃ out, resolve dns cfg s.lists (cacheReads s up) net wire clientIp userId=.ok out ∧
        IsSinkhole dns cfg request domain out.1

/-- No query for the domain is sinkholed. -/
def NeverBlocks : Prop :=
  ∀ wire request clientIp userId net up, dns.parse wire=some request →
    questionName request=domain → ∀ out,
      resolve dns cfg s.lists (cacheReads s up) net wire clientIp userId=.ok out →
        out.1.blocked=false

/-- Every query for the domain gets what the upstream query returns, as long
as Redis answers. -/
def ForwardsQueries : Prop :=
  ∀ wire request clientIp userId net, dns.parse wire=some request →
    questionName request=domain →
      ∃ out, resolve dns cfg s.lists (cacheReads s fun _ => true) net wire clientIp userId=
          .ok out ∧ out.1=forward dns net request domain

/-- Every query for the domain is sinkholed, as long as Redis answers. -/
def SinkholesQueries : Prop :=
  ∀ wire request clientIp userId net, dns.parse wire=some request →
    questionName request=domain →
      ∃ out, resolve dns cfg s.lists (cacheReads s fun _ => true) net wire clientIp userId=
          .ok out ∧ IsSinkhole dns cfg request domain out.1

/-- Every query for the domain gets what the upstream query returns and leaves
no trace, whatever fails. -/
def PassesQueries : Prop :=
  ∀ wire request clientIp userId net up, dns.parse wire=some request →
    questionName request=domain →
      resolve dns cfg s.lists (cacheReads s up) net wire clientIp userId=
        .ok (forward dns net request domain,[])

variable {dns cfg s domain}

/-- A domain with a chain, no bypass suffix and no whitelisted chain member is
not exempt. -/
theorem not_exempt {up : Text → Bool} (hbypass : isBypass domain=false)
    (hwhitelist : ∀ m∈parentChain domain, m∉s.lists.whitelist) (hchain : parentChain domain≠[]) :
    ¬(policyOf s.lists (cacheReads s up)).Exempt domain := by
  intro h
  rcases h with (he|hby)|⟨m,hm,hw⟩
  · rw [he] at hchain
    exact hchain rfl
  · rw [hbypass] at hby
    cases hby
  · exact hwhitelist m hm hw

/-- A blocklisted domain that nothing exempts is sinkholed. -/
theorem blocksQueries_of_blocklisted (hbypass : isBypass domain=false)
    (hwhitelist : ∀ m∈parentChain domain, m∉s.lists.whitelist)
    (hblocklist : ∃ m∈parentChain domain, m∈s.lists.blocklist) :
    BlocksQueries dns cfg s domain := by
  intro wire request clientIp userId net up hparse hname
  obtain ⟨m,hm,hb⟩ := hblocklist
  have hexempt : ¬(policyOf s.lists (cacheReads s up)).Exempt domain :=
    not_exempt hbypass hwhitelist (List.ne_nil_of_mem hm)
  rw [resolve_of_parse hparse,hname]
  exact ⟨_,resolveName_blocklisted dns cfg s.lists (cacheReads s up) net request clientIp userId
    hexempt ⟨m,hm,hb⟩,rfl,rfl,rfl⟩

/-- A domain with a whitelisted chain member passes. -/
theorem passesQueries_of_whitelisted (h : ∃ m∈parentChain domain, m∈s.lists.whitelist) :
    PassesQueries dns cfg s domain := by
  intro wire request clientIp userId net up hparse hname
  rw [resolve_of_parse hparse,hname]
  exact resolveName_exempt dns cfg s.lists (cacheReads s up) net request clientIp userId
    (Or.inr h)

/-- A domain that nothing on its chain condemns, and that no brand resembles,
is not sinkholed. -/
theorem not_sinkholes_of_clear {up : Text → Bool}
    (hblock : ∀ m∈parentChain domain, m∉s.lists.blocklist)
    (hlive : ∀ m∈parentChain domain, ∀ data, liveEntry s m=some data →
      ∀ kind, data.verdict=some kind → kind.isBlocking=false)
    (hsquat : Typosquat.check s.lists.typosquat domain=none) :
    ¬(policyOf s.lists (cacheReads s up)).Sinkholes domain := by
  refine Policy.not_sinkholes_of hblock (fun kind hkind => ?_) (Or.inr ?_)
  · obtain ⟨m,hm,hread⟩ := Policy.exists_of_nearest hkind
    obtain ⟨data,hdata,hv⟩ := live_of_readableKind hread
    exact hlive m hm data hdata kind hv
  · intro hs
    have hsome : (Typosquat.check s.lists.typosquat domain).isSome=true := hs
    rw [hsquat] at hsome
    cases hsome

/-- A result for a domain that is not sinkholed is a forwarded one. -/
theorem resolve_of_not_sinkholes {up : Text → Bool} {wire : Wire} {request : DNSRecord}
    {clientIp : Option Text} {userId : Option ℕ} {net : Server → Exchange}
    {out : ResolveResult×List Task}
    (hs : ¬(policyOf s.lists (cacheReads s up)).Sinkholes domain)
    (hparse : dns.parse wire=some request) (hname : questionName request=domain)
    (hout : resolve dns cfg s.lists (cacheReads s up) net wire clientIp userId=.ok out) :
    out.1=forward dns net request domain := by
  rw [resolve_of_parse hparse,hname] at hout
  exact (resolveName_decides dns cfg s.lists (cacheReads s up) net request clientIp userId
    hout).forwarded hs

/-- A domain that nothing on its chain condemns is forwarded, as long as the
live entries on its chain have a verdict. -/
theorem forwardsQueries_of_clear
    (hblock : ∀ m∈parentChain domain, m∉s.lists.blocklist)
    (hlive : ∀ m∈parentChain domain, ∀ data, liveEntry s m=some data →
      ∃ kind, data.verdict=some kind ∧ kind.isBlocking=false)
    (hsquat : Typosquat.check s.lists.typosquat domain=none) :
    ForwardsQueries dns cfg s domain := by
  intro wire request clientIp userId net hparse hname
  have hs : ¬(policyOf s.lists (cacheReads s fun _ => true)).Sinkholes domain := by
    refine not_sinkholes_of_clear hblock (fun m hm data hdata kind hkind => ?_) hsquat
    obtain ⟨other,hother,hquiet⟩ := hlive m hm data hdata
    rwa [←Option.some.inj (hother.symm.trans hkind)]
  have hreads : ∀ m∈parentChain domain, ∃ found, cacheGet (cacheReads s (fun _ => true) m)=
      .ok found := fun m hm => readable_of_verdict fun data hdata =>
    (hlive m hm data hdata).imp fun _ hk => hk.1
  have hfirst : ReadableFirst (cacheReads s fun _ => true) (parentChain domain) := by
    rw [←List.append_nil (parentChain domain)]
    exact readableFirst_append hreads trivial
  obtain ⟨out,hout⟩ := (resolveName_returns_iff dns cfg s.lists (cacheReads s fun _ => true) net
    request clientIp userId domain).mpr (Or.inr (Or.inr hfirst))
  have hresolve : resolve dns cfg s.lists (cacheReads s fun _ => true) net wire clientIp userId=
      .ok out := by
    rw [resolve_of_parse hparse,hname]
    exact hout
  exact ⟨out,hresolve,resolve_of_not_sinkholes hs hparse hname hresolve⟩

/-- What is sinkholed for every query is not forwarded. -/
theorem BlocksQueries.not_forwardsQueries (h : BlocksQueries dns cfg s domain) {wire : Wire}
    {request : DNSRecord} (hparse : dns.parse wire=some request)
    (hname : questionName request=domain) : ¬ForwardsQueries dns cfg s domain := by
  intro hf
  obtain ⟨out,hout,hforward⟩ := hf wire request none none (fun _ => ⟨.timeout,.timeout⟩) hparse
    hname
  obtain ⟨other,hother,hblocked,-⟩ := h wire request none none (fun _ => ⟨.timeout,.timeout⟩)
    (fun _ => true) hparse hname
  have he : other=out := Except.ok.inj (hother.symm.trans hout)
  rw [he,hforward,forward_blocked] at hblocked
  cases hblocked

end Questions

end ScamLens.Answers
