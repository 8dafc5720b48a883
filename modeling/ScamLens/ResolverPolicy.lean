import ScamLens.NamePolicy
import ScamLens.Resolver

/-!
# The resolver decides by its policy, and where failures break it

The lists in memory and the readable verdicts form a policy. Whenever the
cache walk completes, the pipeline sinkholes exactly the names the policy
sinkholes, forwards the others, and tells the tasks it schedules. The walk
completes unless a read fails in front of the nearest entry; a forwarded query
gets empty bytes where an exchange ends in an empty TCP message. No other
failure of Redis, Postgres or the upstream servers is visible in the answer.
-/

namespace ScamLens.ResolverPolicy

open NamePolicy PythonText Resolver Typosquat Upstream VerdictCache

/-- The kind of verdict a read returns; an unreadable key has none. -/
def readableKind (read : Text → RedisGet) (domain : Text) : Option VerdictKind :=
  match cacheGet (read domain) with
  | .ok v => v.map (·.verdict)
  | .error _ => none

/-- The policy made of the lists in memory and the verdicts that can be read. -/
def policyOf (lists : Lists) (read : Text → RedisGet) : Policy Text where
  chain := parentChain
  bypassed := fun n => n=[] ∨ isBypass n=true
  whitelist := {n | n∈lists.whitelist}
  blocklist := {n | n∈lists.blocklist}
  verdict := readableKind read
  squats := fun n => (check lists.typosquat n).isSome=true

/-- Exemption is what the first two stages of the pipeline test. -/
theorem exempt_iff {lists : Lists} {read : Text → RedisGet} {qname : Text} :
    (policyOf lists read).Exempt qname ↔
      (qname=[] ∨ isBypass qname=true) ∨ matchChain qname lists.whitelist=true :=
  or_congr_right matchChain_iff.symm

/-- The first read along the candidates that does not come back empty comes
back with an entry rather than an exception. -/
def ReadableFirst (read : Text → RedisGet) : List Text → Prop
  | [] => True
  | candidate::candidates =>
    match cacheGet (read candidate) with
    | .error _ => False
    | .ok (some _) => True
    | .ok none => ReadableFirst read candidates

/-- Candidates that can be read leave it to the rest. -/
theorem readableFirst_append {read : Text → RedisGet} {near rest : List Text}
    (h : ∀ m∈near, ∃ found, cacheGet (read m)=.ok found) (hrest : ReadableFirst read rest) :
    ReadableFirst read (near++rest) := by
  induction near with
  | nil => exact hrest
  | cons candidate near ih =>
    obtain ⟨found,hfound⟩ := h candidate List.mem_cons_self
    rw [List.cons_append,ReadableFirst,hfound]
    cases found with
    | none => exact ih fun m hm => h m (List.mem_cons_of_mem _ hm)
    | some v => exact trivial

/-- The walk along the candidates completes exactly when its first entry is
readable, and then finds the nearest readable verdict. -/
theorem cacheLookupFrom_iff (read : Text → RedisGet) (candidates : List Text) :
    (ReadableFirst read candidates ↔ ∃ cached, cacheLookupFrom read candidates=.ok cached) ∧
      ∀ cached, cacheLookupFrom read candidates=.ok cached →
        cached.map (·.verdict)=candidates.findSome? (readableKind read) := by
  induction candidates with
  | nil =>
    refine ⟨⟨fun _ => ⟨none,rfl⟩,fun _ => trivial⟩,fun cached h => ?_⟩
    rw [←Except.ok.inj h]
    rfl
  | cons candidate candidates ih =>
    rw [ReadableFirst,cacheLookupFrom,List.findSome?_cons,readableKind]
    cases hread : cacheGet (read candidate) with
    | error failure =>
      refine ⟨⟨False.elim,fun ⟨_,h⟩ => by cases h⟩,fun _ h => by cases h⟩
    | ok found =>
      cases found with
      | none => exact ih
      | some v =>
        refine ⟨⟨fun _ => ⟨some v,rfl⟩,fun _ => trivial⟩,fun cached h => ?_⟩
        rw [←Except.ok.inj h]
        rfl

section Decision

variable (dns : Dnslib) (cfg : Config) (lists : Lists) (read : Text → RedisGet)
  (net : Server → Exchange) (request : DNSRecord) (clientIp : Option Text) (userId : Option ℕ)
  {qname : Text}

/-- A sinkholed result: the block page reply as it is packed, marked as blocked. -/
def IsSinkhole (qname : Text) (r : ResolveResult) : Prop :=
  r.blocked=true ∧ r.domain=qname ∧
    r.wire=dns.pack (sinkholeReply cfg request (qtypeOf request.qtype))

/-- An exempt name is forwarded, reads nothing and schedules nothing. -/
theorem resolveName_exempt (h : (policyOf lists read).Exempt qname) :
    resolveName dns cfg lists read net request qname clientIp userId=
      .ok (forward dns net request qname,[]) := by
  unfold resolveName
  dsimp only
  split
  · rfl
  · rename_i hb
    rw [if_pos ((exempt_iff.mp h).resolve_left hb)]

/-- A blocklisted name that is not exempt is sinkholed without a read. -/
theorem resolveName_blocklisted (hexempt : ¬(policyOf lists read).Exempt qname)
    (h : ∃ m∈parentChain qname, m∈lists.blocklist) :
    resolveName dns cfg lists read net request qname clientIp userId=
      .ok (block dns cfg request qname (qtypeOf request.qtype) blocklistVerdict clientIp
        userId) := by
  obtain ⟨hb,hw⟩ := not_or.mp (exempt_iff.not.mp hexempt)
  unfold resolveName
  rw [if_neg hb,if_neg hw,if_pos (matchChain_iff.mpr h)]

/-- Every other name goes through the cache walk, whose failure escapes. -/
theorem resolveName_lookup (hexempt : ¬(policyOf lists read).Exempt qname)
    (h : ¬∃ m∈parentChain qname, m∈lists.blocklist) :
    (∀ failure, cacheLookup read qname=.error failure →
      resolveName dns cfg lists read net request qname clientIp userId=.error failure) ∧
    ∀ cached, cacheLookup read qname=.ok cached →
      resolveName dns cfg lists read net request qname clientIp userId=
        .ok (resolveCached dns cfg lists net request qname (qtypeOf request.qtype) cached
          clientIp userId) := by
  obtain ⟨hb,hw⟩ := not_or.mp (exempt_iff.not.mp hexempt)
  unfold resolveName
  rw [if_neg hb,if_neg hw,if_neg fun hc => h (matchChain_iff.mp hc)]
  refine ⟨fun failure hf => ?_,fun cached hc => ?_⟩
  · rw [hf]
  · rw [hc]

/-- Nothing is in the way of an answer: the name is exempt or blocklisted, or
the first entry on its chain can be read. -/
def Completes (qname : Text) : Prop :=
  (policyOf lists read).Exempt qname ∨ (∃ m∈parentChain qname, m∈lists.blocklist) ∨
    ReadableFirst read (parentChain qname)

variable (qname) in
/-- The pipeline returns exactly when nothing is in the way of an answer. -/
theorem resolveName_returns_iff :
    (∃ out, resolveName dns cfg lists read net request qname clientIp userId=.ok out) ↔
      Completes lists read qname := by
  by_cases hexempt : (policyOf lists read).Exempt qname
  · exact ⟨fun _ => Or.inl hexempt,fun _ => ⟨_,resolveName_exempt dns cfg lists read net request
      clientIp userId hexempt⟩⟩
  by_cases hblock : ∃ m∈parentChain qname, m∈lists.blocklist
  · exact ⟨fun _ => Or.inr (Or.inl hblock),fun _ => ⟨_,resolveName_blocklisted dns cfg lists read
      net request clientIp userId hexempt hblock⟩⟩
  have hwalk := resolveName_lookup dns cfg lists read net request clientIp userId hexempt hblock
  have hfirst := (cacheLookupFrom_iff read (parentChain qname)).1
  constructor
  · rintro ⟨out,hout⟩
    refine Or.inr (Or.inr (hfirst.mpr ?_))
    cases hc : cacheLookup read qname with
    | error failure =>
      have he := hwalk.1 failure hc
      rw [hout] at he
      cases he
    | ok cached => exact ⟨cached,hc⟩
  · intro h
    obtain ⟨cached,hc⟩ := hfirst.mp ((h.resolve_left hexempt).resolve_left hblock)
    exact ⟨_,hwalk.2 cached hc⟩

/-- What one query may schedule, and when. -/
inductive Scheduled (qname : Text) : Task → Prop where
  /-- Sinkholing a name logs it under its own name. -/
  | log {entry : BlockEntry} (hname : entry.domain=qname)
      (hs : (policyOf lists read).Sinkholes qname) : Scheduled qname (.resolveThenLog entry)
  /-- Sinkholing a name for another reason than the blocklist promotes it. -/
  | promote (category : Text) (hs : (policyOf lists read).Sinkholes qname)
      (hb : ¬∃ m∈parentChain qname, m∈lists.blocklist) :
      Scheduled qname (.promoteToBlocklist qname category)
  /-- A typosquat hit is cached as a scam verdict. -/
  | cacheHit {hit : TyposquatHit} (hhit : check lists.typosquat qname=some hit)
      (hs : (policyOf lists read).Sinkholes qname) :
      Scheduled qname (.cacheSet qname (typosquatVerdict hit) cfg.scamTtl)
  /-- A forwarded name without any entry on its chain is offered to a scan. -/
  | enqueue (hs : ¬(policyOf lists read).Sinkholes qname)
      (hn : (policyOf lists read).nearest qname=none) : Scheduled qname (.enqueueIfNew qname)

/-- What the answer to one query is, and what it may have scheduled. -/
structure Decides (qname : Text) (out : ResolveResult×List Task) : Prop where
  /-- Names the policy sinkholes get the sinkhole reply. -/
  sinkholed : (policyOf lists read).Sinkholes qname → IsSinkhole dns cfg request qname out.1
  /-- All others get what the upstream query returned. -/
  forwarded : ¬(policyOf lists read).Sinkholes qname → out.1=forward dns net request qname
  /-- Nothing else than the listed tasks is scheduled. -/
  scheduled : ∀ task∈out.2, Scheduled cfg lists read qname task

/-- Sinkholing on a verdict decides as the policy does, provided the policy
sinkholes the name. -/
theorem block_decides (hs : (policyOf lists read).Sinkholes qname) (verdict : Verdict)
    (hb : verdict.source≠"blocklist".toList → ¬∃ m∈parentChain qname, m∈lists.blocklist) :
    Decides dns cfg lists read net request qname
      (block dns cfg request qname (qtypeOf request.qtype) verdict clientIp userId) := by
  refine ⟨fun _ => ⟨rfl,rfl,rfl⟩,fun hn => absurd hs hn,fun task ht => ?_⟩
  rcases List.mem_cons.mp ht with rfl|ht
  · exact .log rfl hs
  · split at ht
    · exact absurd ht List.not_mem_nil
    · rename_i hsource
      rw [List.mem_singleton.mp ht]
      exact .promote _ hs (hb hsource)

/-- Sinkholing a typosquat decides as the policy does, provided the policy
sinkholes the name. -/
theorem resolveHit_decides (hs : (policyOf lists read).Sinkholes qname) {hit : TyposquatHit}
    (hhit : check lists.typosquat qname=some hit)
    (hblock : ¬∃ m∈parentChain qname, m∈lists.blocklist) :
    Decides dns cfg lists read net request qname
      (resolveHit dns cfg request qname (qtypeOf request.qtype) hit clientIp userId) := by
  refine ⟨fun _ => ⟨rfl,rfl,rfl⟩,fun hn => absurd hs hn,fun task ht => ?_⟩
  rcases List.mem_cons.mp ht with rfl|ht
  · exact .cacheHit hhit hs
  rcases List.mem_cons.mp ht with rfl|ht
  · exact .log rfl hs
  · rw [List.mem_singleton.mp ht]
    exact .promote _ hs hblock

/-- No cached verdict is blocking if the nearest one is not. -/
theorem not_blocking_of_filter {cached : Option Verdict} {nearest : Option VerdictKind}
    (hnear : cached.map (·.verdict)=nearest) (h : cached.filter (·.isBlocking)=none) :
    ∀ kind, nearest=some kind → kind.isBlocking=false := by
  rintro kind rfl
  obtain ⟨v,rfl,rfl⟩ := Option.map_eq_some_iff.mp hnear
  exact Bool.eq_false_iff.mpr (Option.filter_eq_none_iff.mp h v rfl)

/-- A cached verdict is safe exactly if the nearest one is. -/
theorem any_safe_iff {cached : Option Verdict} {nearest : Option VerdictKind}
    (hnear : cached.map (·.verdict)=nearest) :
    cached.any (·.verdict=.safe)=true ↔ nearest=some .safe := by
  rw [←hnear,Option.any_eq_true,Option.map_eq_some_iff]
  exact exists_congr fun v => and_congr_right fun _ => decide_eq_true_iff

/-- The stages after the cache walk decide as the policy does. -/
theorem resolveCached_decides (hexempt : ¬(policyOf lists read).Exempt qname)
    (hblock : ¬∃ m∈parentChain qname, m∈lists.blocklist) {cached : Option Verdict}
    (hnear : cached.map (·.verdict)=(policyOf lists read).nearest qname) :
    Decides dns cfg lists read net request qname
      (resolveCached dns cfg lists net request qname (qtypeOf request.qtype) cached
        clientIp userId) := by
  unfold resolveCached
  split
  · rename_i v hv
    obtain ⟨rfl,hblocking⟩ := Option.filter_eq_some_iff.mp hv
    have hs : (policyOf lists read).Sinkholes qname :=
      ⟨hexempt,Or.inr (Or.inl ⟨v.verdict,hnear.symm,hblocking⟩)⟩
    exact block_decides dns cfg lists read net request clientIp userId hs v fun _ => hblock
  · rename_i hv
    have hquiet := not_blocking_of_filter hnear hv
    split
    · rename_i hsafe
      have hclear := (any_safe_iff hnear).mp hsafe
      have hs := Policy.not_sinkholes_of (fun m hm hb => hblock ⟨m,hm,hb⟩) hquiet (Or.inl hclear)
      exact ⟨fun h => absurd h hs,fun _ => rfl,fun task ht => absurd ht List.not_mem_nil⟩
    · rename_i hsafe
      have hclear := mt (any_safe_iff hnear).mpr hsafe
      split
      · rename_i hit hhit
        have hs : (policyOf lists read).Sinkholes qname :=
          ⟨hexempt,Or.inr (Or.inr ⟨hclear,Option.isSome_iff_exists.mpr ⟨hit,hhit⟩⟩)⟩
        exact resolveHit_decides dns cfg lists read net request clientIp userId hs hhit hblock
      · rename_i hhit
        have hsquat : ¬(check lists.typosquat qname).isSome=true := by
          rw [hhit]
          exact Bool.false_ne_true
        have hs := Policy.not_sinkholes_of (fun m hm hb => hblock ⟨m,hm,hb⟩) hquiet (Or.inr hsquat)
        refine ⟨fun h => absurd h hs,fun _ => rfl,fun task ht => ?_⟩
        dsimp only at ht
        split at ht
        · rename_i hnew
          have hnone : cached=none := Option.isNone_iff_eq_none.mp (Bool.and_eq_true_iff.mp hnew).1
          rw [List.mem_singleton.mp ht]
          exact .enqueue hs (by rw [←hnear,hnone]; rfl)
        · exact absurd ht List.not_mem_nil

/-- Whatever the pipeline returns, it decides as the policy of the lists and
the readable verdicts does. -/
theorem resolveName_decides {out : ResolveResult×List Task}
    (h : resolveName dns cfg lists read net request qname clientIp userId=.ok out) :
    Decides dns cfg lists read net request qname out := by
  by_cases hexempt : (policyOf lists read).Exempt qname
  · have he := resolveName_exempt dns cfg lists read net request clientIp userId hexempt
    rw [←Except.ok.inj (he.symm.trans h)]
    exact ⟨fun hs => absurd hexempt hs.1,fun _ => rfl,fun task ht => absurd ht List.not_mem_nil⟩
  by_cases hblock : ∃ m∈parentChain qname, m∈lists.blocklist
  · have he := resolveName_blocklisted dns cfg lists read net request clientIp userId hexempt hblock
    rw [←Except.ok.inj (he.symm.trans h)]
    exact block_decides dns cfg lists read net request clientIp userId ⟨hexempt,Or.inl hblock⟩
      blocklistVerdict fun hn => absurd rfl hn
  have hwalk := resolveName_lookup dns cfg lists read net request clientIp userId hexempt hblock
  cases hc : cacheLookup read qname with
  | error failure =>
    have he := hwalk.1 failure hc
    rw [h] at he
    cases he
  | ok cached =>
    have he := hwalk.2 cached hc
    rw [←Except.ok.inj (he.symm.trans h)]
    exact resolveCached_decides dns cfg lists read net request clientIp userId hexempt hblock
      ((cacheLookupFrom_iff read (parentChain qname)).2 cached hc)

end Decision

end ScamLens.ResolverPolicy
