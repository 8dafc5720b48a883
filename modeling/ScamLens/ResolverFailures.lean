import ScamLens.PlainMessages
import ScamLens.ResolverPolicy

/-!
# Answers under failures of Redis and the upstream servers

A query survives when it gets a nonempty answer: the sinkhole for a
blocklisted name that nothing exempts, and for a name that nothing readable
blocks the answer the two upstream servers gave, or SERVFAIL when they gave
none. Three kinds of failure break this and no others do: a cache read that
raises, an empty TCP message, and a reply that cannot be packed.
-/

namespace ScamLens.ResolverFailures

open NamePolicy PlainMessages PythonText Resolver ResolverPolicy Typosquat Upstream VerdictCache

/-- The SERVFAIL reply of the forward path. -/
def servfailReply (request : DNSRecord) : DNSRecord := {request.reply with rcode := servfailCode}

/-- The query gets an answer that no failure has spoiled: `resolve` returns, and
with bytes. -/
def Survives (dns : Dnslib) (cfg : Config) (lists : Lists) (read : Text → RedisGet)
    (net : Server → Exchange) (request : DNSRecord)
    (outcome : Except Failure (ResolveResult×List Task)) : Prop :=
  ∃ out wire, outcome=.ok out ∧ out.1.wire=some wire ∧ wire≠[] ∧
    (¬(policyOf lists read).Exempt (questionName request) →
      (∃ m∈parentChain (questionName request), m∈lists.blocklist) →
        IsSinkhole dns cfg request (questionName request) out.1) ∧
    (¬(policyOf lists read).Sinkholes (questionName request) →
      out.1.blocked=false ∧
      some wire=(upstreamAnswer net).or (dns.pack (servfailReply request)))

/-- The reply that the resolver makes for the request itself can be packed: the
sinkhole reply of a name that the policy sinkholes, and SERVFAIL for a name that
it forwards and that no upstream server answers. -/
def Packs (dns : Dnslib) (cfg : Config) (lists : Lists) (read : Text → RedisGet)
    (net : Server → Exchange) (request : DNSRecord) : Prop :=
  ((policyOf lists read).Sinkholes (questionName request) →
    (dns.pack (sinkholeReply cfg request (qtypeOf request.qtype))).isSome=true) ∧
  (¬(policyOf lists read).Sinkholes (questionName request) → upstreamAnswer net=none →
    (dns.pack (servfailReply request)).isSome=true)

/-- A forwarded query gets the upstream answer or SERVFAIL, except that an
exchange ending in an empty TCP message leaves it with empty bytes. -/
theorem forward_wire (dns : Dnslib) (net : Server → Exchange) (request : DNSRecord)
    (qname : Text) :
    (HitsEmptyTcp net → (forward dns net request qname).wire=some []) ∧
    (¬HitsEmptyTcp net → (forward dns net request qname).wire=
      (upstreamAnswer net).or (dns.pack (servfailReply request))) := by
  unfold forward
  refine ⟨fun h => ?_,fun h => ?_⟩
  · rw [query_of_hitsEmptyTcp h]
  · rw [query_of_not_hitsEmptyTcp h]
    cases upstreamAnswer net <;> rfl

/-- A query survives exactly when nothing is in the way of an answer, the reply
made for it can be packed and, unless the name is sinkholed, no exchange ends in
an empty TCP message. -/
theorem resolve_survives_iff {dns : Dnslib} (hpack : ∀ r wire, dns.pack r=some wire → wire≠[])
    (cfg : Config) (lists : Lists) (read : Text → RedisGet) (net : Server → Exchange) {wire : Wire}
    {request : DNSRecord} (hparse : dns.parse wire=some request) (clientIp : Option Text)
    (userId : Option ℕ) :
    Survives dns cfg lists read net request
        (resolve dns cfg lists read net wire clientIp userId) ↔
      Completes lists read (questionName request) ∧ Packs dns cfg lists read net request ∧
        ((policyOf lists read).Sinkholes (questionName request) ∨ ¬HitsEmptyTcp net) := by
  rw [resolve_of_parse hparse]
  have hreturns := resolveName_returns_iff dns cfg lists read net request clientIp userId
    (questionName request)
  obtain ⟨hempty,hwire⟩ := forward_wire dns net request (questionName request)
  constructor
  · rintro ⟨out,answer,hout,hanswer,hne,-,hforward⟩
    have hd := resolveName_decides dns cfg lists read net request clientIp userId hout
    refine ⟨hreturns.mp ⟨out,hout⟩,⟨fun hs => ?_,fun hs hnone => ?_⟩,?_⟩
    · rw [←(hd.sinkholed hs).2.2,hanswer]
      rfl
    · have heq := (hforward hs).2
      rw [hnone,Option.none_or] at heq
      rw [←heq]
      rfl
    · by_cases hs : (policyOf lists read).Sinkholes (questionName request)
      · exact Or.inl hs
      · refine Or.inr fun hhits => hne ?_
        rw [hd.forwarded hs,hempty hhits] at hanswer
        exact (Option.some.inj hanswer).symm
  · rintro ⟨hcompletes,⟨hsinkhole,hservfail⟩,hupstream⟩
    obtain ⟨out,hout⟩ := hreturns.mpr hcompletes
    have hd := resolveName_decides dns cfg lists read net request clientIp userId hout
    by_cases hs : (policyOf lists read).Sinkholes (questionName request)
    · obtain ⟨answer,hanswer⟩ := Option.isSome_iff_exists.mp (hsinkhole hs)
      have hsink := hd.sinkholed hs
      exact ⟨out,answer,hout,hsink.2.2.trans hanswer,hpack _ _ hanswer,fun _ _ => hsink,
        fun hn => absurd hs hn⟩
    · have hforward := hwire (hupstream.resolve_left hs)
      have hfound : ∃ answer, (upstreamAnswer net).or (dns.pack (servfailReply request))=
          some answer ∧ answer≠[] := by
        cases ha : upstreamAnswer net with
        | some answer => exact ⟨answer,rfl,upstreamAnswer_ne_nil ha⟩
        | none =>
          obtain ⟨answer,hanswer⟩ := Option.isSome_iff_exists.mp (hservfail hs ha)
          exact ⟨answer,hanswer,hpack _ _ hanswer⟩
      obtain ⟨answer,hanswer,hne⟩ := hfound
      refine ⟨out,answer,hout,?_,hne,
        fun hexempt hblock => absurd ⟨hexempt,Or.inl hblock⟩ hs,fun _ => ⟨?_,hanswer.symm⟩⟩
      · rw [hd.forwarded hs,hforward,hanswer]
      · rw [hd.forwarded hs]
        exact forward_blocked dns net request _

section Outage

/-- Lists that hold one blocklisted domain. -/
def sampleLists : Lists where
  blocklist := {"bad.tk".toList}
  whitelist := ∅
  typosquat := ⟨[],fun _ _ _ => false⟩
  dohTokens := ∅

/-- Both servers answer over UDP. -/
def healthyNet : Server → Exchange := fun _ => ⟨.data (aQuery "a.bc".toList),.timeout⟩

/-- With Redis down, a blocklisted name is still sinkholed. -/
theorem resolve_survives_blocklisted :
    Survives plainDns defaultConfig sampleLists (fun _ => .raises) healthyNet
      (aQuestion "bad.tk".toList)
      (resolve plainDns defaultConfig sampleLists (fun _ => .raises) healthyNet
        (aQuery "bad.tk".toList) none none) := by
  have hlisted : ∃ m∈parentChain (questionName (aQuestion "bad.tk".toList)),
      m∈sampleLists.blocklist := matchChain_iff.mp (by decide)
  have hs : (policyOf sampleLists fun _ => .raises).Sinkholes
      (questionName (aQuestion "bad.tk".toList)) :=
    ⟨exempt_iff.not.mpr (by decide),Or.inl hlisted⟩
  exact (resolve_survives_iff plainDns_pack_ne_nil defaultConfig sampleLists (fun _ => .raises)
    healthyNet (by decide) none none).mpr
      ⟨Or.inr (Or.inl hlisted),⟨fun _ => by decide,fun hn => absurd hs hn⟩,Or.inl hs⟩

/-- With Redis down, a name that nothing blocks gets no answer at all,
although both upstream servers would answer it. -/
theorem resolve_raises_without_redis :
    ¬Survives plainDns defaultConfig sampleLists (fun _ => .raises) healthyNet
      (aQuestion "a.bc".toList)
      (resolve plainDns defaultConfig sampleLists (fun _ => .raises) healthyNet
        (aQuery "a.bc".toList) none none) := by
  have hraises : resolve plainDns defaultConfig sampleLists (fun _ => .raises) healthyNet
      (aQuery "a.bc".toList) none none=.error .redisUnavailable := by rfl
  rintro ⟨out,wire,hout,-⟩
  rw [hraises] at hout
  cases hout

end Outage

end ScamLens.ResolverFailures
