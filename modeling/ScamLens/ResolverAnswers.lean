import ScamLens.ServiceFrames

/-!
# Answers in a run of all services

What the event of a run sends back to a client, if it ends a query. A query
that nothing disturbs is answered as `resolve` answers it.
-/

namespace ScamLens.ResolverAnswers

open EventRuns PythonText Resolver ServiceFrames Services TableFrames Typosquat Upstream
  VerdictCache

section Answers

variable (dns : Dnslib) (cfg : Config)

/-- The answer of a query that has its cached verdict. -/
def finishAnswer (s : Deployment) (w : Walk) (net : Server → Exchange) (cached : Option Verdict) :
    ResolveResult :=
  (resolveCached dns cfg s.lists net w.request w.qname (qtypeOf w.request.qtype) cached
    w.clientIp w.userId).1

/-- The answer of a query, if it is through with its cache reads. -/
def continueAnswer (s : Deployment) (w : Walk) (net : Server → Exchange) : Option ResolveResult :=
  if w.candidates=[] then some (finishAnswer dns cfg s w net none) else none

/-- The answer of an arriving query, if it reads no cache. -/
def arriveAnswer (s : Deployment) (request : DNSRecord) (clientIp : Option Text)
    (userId : Option ℕ) (net : Server → Exchange) : Option ResolveResult :=
  let qname := questionName request
  if qname=[] ∨ isBypass qname then some (forward dns net request qname)
  else if matchChain qname s.lists.whitelist then some (forward dns net request qname)
  else if matchChain qname s.lists.blocklist then
    some (block dns cfg request qname (qtypeOf request.qtype) blocklistVerdict clientIp userId).1
  else continueAnswer dns cfg s ⟨request,qname,parentChain qname,clientIp,userId⟩ net

/-- The answer of a query behind a cache read, none also when the read raises. -/
def readAnswer (s : Deployment) (w : Walk) (candidate : Text) (candidates : List Text)
    (up : Bool) (net : Server → Exchange) : Option ResolveResult :=
  match cacheGet (s.redis.getVerdict s.now up candidate) with
  | .error _ => none
  | .ok (some v) => some (finishAnswer dns cfg s w net (some v))
  | .ok none => continueAnswer dns cfg s {w with candidates := candidates} net

/-- The answer behind the next cache read. -/
def nextAnswer (s : Deployment) (w : Walk) (up : Bool) (net : Server → Exchange) :
    Option ResolveResult :=
  match w.candidates with
  | [] => some (finishAnswer dns cfg s w net none)
  | candidate::candidates => readAnswer dns cfg s w candidate candidates up net

/-- The answer that an event sends, in the state before it. -/
def answerOf (s : Deployment) : Event → Option ResolveResult
  | .resolver (.query wire clientIp userId net) =>
    match dns.parse wire with
    | none => some ⟨some (servfail dns wire),false,[],none⟩
    | some request => arriveAnswer dns cfg s request clientIp userId net
  | .resolver (.read i up net) => s.walks[i]?.bind fun w => nextAnswer dns cfg s w up net
  | _ => none

end Answers

section Undisturbed

variable (dns : Dnslib) (cfg : Config) (s : Deployment) (up : Bool) (net : Server → Exchange)

/-- Without a waiting query nothing is answered. -/
theorem lastOutput_idle (hs : s.walks=[]) (n : ℕ) :
    lastOutput (step dns cfg) (answerOf dns cfg) s
      (List.replicate n (.resolver (.read 0 up net)))=none := by
  induction n with
  | zero => rfl
  | succ n ih =>
    have hidle : step dns cfg s (.resolver (.read 0 up net))=s :=
      run_read_idle dns cfg s up net hs 1
    have hanswer : answerOf dns cfg s (.resolver (.read 0 up net))=none := by
      rw [answerOf,hs]
      rfl
    rw [List.replicate_succ,lastOutput,hidle,ih,hanswer]
    rfl

/-- A query that is alone is answered behind its reads as `_cache_lookup` says. -/
theorem lastOutput_walk (hs : s.walks=[]) {candidates : List Text} (hne : candidates≠[]) {w : Walk}
    (hw : w.candidates=candidates) :
    lastOutput (step dns cfg) (answerOf dns cfg) {s with walks := [w]}
        (List.replicate candidates.length (.resolver (.read 0 up net)))=
      match cacheLookupFrom (s.redis.getVerdict s.now up) candidates with
      | .ok cached => some (finishAnswer dns cfg s w net cached)
      | .error _ => none := by
  induction candidates generalizing w with
  | nil => exact absurd rfl hne
  | cons candidate candidates ih =>
    have hanswer : answerOf dns cfg {s with walks := [w]} (.resolver (.read 0 up net))=
        readAnswer dns cfg s w candidate candidates up net := by
      have hnext : answerOf dns cfg {s with walks := [w]} (.resolver (.read 0 up net))=
          nextAnswer dns cfg {s with walks := [w]} w up net := rfl
      rw [hnext,nextAnswer,hw]
      rfl
    rw [List.length_cons,List.replicate_succ,lastOutput,hanswer,
      step_read_single dns cfg s up net hs hw,readCandidate,readAnswer,cacheLookupFrom]
    cases cacheGet (s.redis.getVerdict s.now up candidate) with
    | error failure =>
      dsimp only
      rw [lastOutput_idle dns cfg s up net hs]
      rfl
    | ok found =>
      cases found with
      | some v =>
        dsimp only
        rw [lastOutput_idle dns cfg (finish dns cfg s w net (some v)) up net hs]
        rfl
      | none =>
        dsimp only
        by_cases hc : candidates=[]
        · rw [hc,continueWalk,if_pos rfl,continueAnswer,if_pos rfl]
          rfl
        · rw [continueWalk,if_neg hc,hs,continueAnswer,if_neg hc,Option.or_none]
          exact ih hc rfl

/-- A query that is alone is answered as `resolve` answers it. -/
theorem lastOutput_query_undisturbed (hs : s.walks=[]) {wire : Wire} {request : DNSRecord}
    (hparse : dns.parse wire=some request) (clientIp : Option Text) (userId : Option ℕ) :
    lastOutput (step dns cfg) (answerOf dns cfg) s (.resolver (.query wire clientIp userId net)::
        List.replicate (parentChain (questionName request)).length (.resolver (.read 0 up net)))=
      match resolve dns cfg s.lists (s.redis.getVerdict s.now up) net wire clientIp userId with
      | .ok out => some out.1
      | .error _ => none := by
  have hidle : ∀ t : Deployment, t.walks=[] → lastOutput (step dns cfg) (answerOf dns cfg) t
      (List.replicate (parentChain (questionName request)).length (.resolver (.read 0 up net)))=
        none :=
    fun t ht => lastOutput_idle dns cfg t up net ht _
  have harrive : step dns cfg s (.resolver (.query wire clientIp userId net))=
      arrive dns cfg s request clientIp userId net := by
    rw [step,resolverStep,hparse]
  have hanswer : answerOf dns cfg s (.resolver (.query wire clientIp userId net))=
      arriveAnswer dns cfg s request clientIp userId net := by
    rw [answerOf,hparse]
  rw [lastOutput,harrive,hanswer,resolve_of_parse hparse,arrive,arriveAnswer,resolveName]
  split
  · rw [hidle s hs]
    rfl
  split
  · rw [hidle s hs]
    rfl
  split
  · rw [hidle (schedule s _) hs]
    rfl
  rw [continueWalk,continueAnswer,cacheLookup]
  dsimp only
  split
  · rename_i hc
    rw [hc]
    rfl
  · rename_i hc
    rw [hs,Option.or_none]
    refine (lastOutput_walk dns cfg s up net hs hc rfl).trans ?_
    cases cacheLookupFrom (s.redis.getVerdict s.now up) (parentChain (questionName request)) <;> rfl

end Undisturbed

section Blocks

variable {dns : Dnslib} {cfg : Config} {s : Deployment}

/-- A sinkholed query without an entry in the blocklist in memory promotes its
name, unless the cached verdict says that it comes from there. -/
theorem resolveCached_blocked {lists : Lists} {net : Server → Exchange} {request : DNSRecord}
    {qname : Text} {qtype : QType} {cached : Option Verdict} {clientIp : Option Text}
    {userId : Option ℕ}
    (h : (resolveCached dns cfg lists net request qname qtype cached clientIp
      userId).1.blocked=true) :
    (resolveCached dns cfg lists net request qname qtype cached clientIp userId).1.domain=qname ∧
      ((∃ v, cached=some v ∧ v.source="blocklist".toList) ∨
        ∃ category, Task.promoteToBlocklist qname category∈
          (resolveCached dns cfg lists net request qname qtype cached clientIp userId).2) := by
  unfold resolveCached at h ⊢
  split
  · rename_i v hv
    refine ⟨rfl,?_⟩
    by_cases hsource : v.source="blocklist".toList
    · exact Or.inl ⟨v,(Option.filter_eq_some_iff.mp hv).1,hsource⟩
    · refine Or.inr ⟨categoryFor v,?_⟩
      rw [block,if_neg hsource]
      exact List.mem_cons_of_mem _ (List.mem_singleton_self _)
  · rename_i hv
    rw [hv] at h
    dsimp only at h
    split
    · rename_i hsafe
      rw [if_pos hsafe,forward_blocked] at h
      cases h
    · rename_i hsafe
      rw [if_neg hsafe] at h
      split
      · rename_i hit hhit
        exact ⟨rfl,Or.inr ⟨_,List.mem_cons_of_mem _ (List.mem_cons_of_mem _
          (List.mem_singleton_self _))⟩⟩
      · rename_i hhit
        rw [hhit,forward_blocked] at h
        cases h

/-- Why a name is sinkholed: an entry in the blocklist in memory, a cached
verdict that says it comes from there, or something else, and then a promotion
of the name is among the tasks behind the event. -/
def BlockReason (s t : Deployment) (d : Text) : Prop :=
  (∃ m∈parentChain d, m∈s.lists.blocklist) ∨
    (∃ candidate up v, cacheGet (s.redis.getVerdict s.now up candidate)=.ok (some v) ∧
      v.source="blocklist".toList) ∨
    ∃ category, Task.promoteToBlocklist d category∈t.tasks

/-- A query without a cached verdict that is sinkholed is promoted. -/
theorem continueWalk_blocked {w : Walk} {net : Server → Exchange} {r : ResolveResult}
    (h : continueAnswer dns cfg s w net=some r) (hblocked : r.blocked=true) :
    BlockReason s (continueWalk dns cfg s w net) r.domain := by
  rw [continueAnswer] at h
  split at h
  · rename_i hdone
    rw [←Option.some.inj h,finishAnswer] at hblocked ⊢
    obtain ⟨hdomain,⟨v,hv,-⟩|⟨category,htask⟩⟩ := resolveCached_blocked hblocked
    · cases hv
    · refine Or.inr (Or.inr ⟨category,?_⟩)
      rw [continueWalk,if_pos hdone,hdomain]
      exact List.mem_append_right _ htask
  · cases h

/-- A query behind a cache read that is sinkholed has a reason. -/
theorem readCandidate_blocked {w : Walk} {candidate : Text} {candidates : List Text} {up : Bool}
    {net : Server → Exchange} {r : ResolveResult}
    (h : readAnswer dns cfg s w candidate candidates up net=some r) (hblocked : r.blocked=true) :
    BlockReason s (readCandidate dns cfg s w candidate candidates up net) r.domain := by
  rw [readAnswer] at h
  rw [readCandidate]
  cases hread : cacheGet (s.redis.getVerdict s.now up candidate) with
  | error failure =>
    rw [hread] at h
    cases h
  | ok found =>
    rw [hread] at h
    cases found with
    | none => exact continueWalk_blocked h hblocked
    | some v =>
      rw [←Option.some.inj h,finishAnswer] at hblocked ⊢
      obtain ⟨hdomain,⟨v',hv,hsource⟩|⟨category,htask⟩⟩ := resolveCached_blocked hblocked
      · cases hv
        exact Or.inr (Or.inl ⟨candidate,up,v,hread,hsource⟩)
      · refine Or.inr (Or.inr ⟨category,?_⟩)
        rw [hdomain]
        exact List.mem_append_right _ htask

/-- A name sinkholed when its query arrives has a reason. -/
theorem query_blocked {wire : Wire} {clientIp : Option Text} {userId : Option ℕ}
    {net : Server → Exchange} {r : ResolveResult}
    (h : answerOf dns cfg s (.resolver (.query wire clientIp userId net))=some r)
    (hblocked : r.blocked=true) :
    BlockReason s (step dns cfg s (.resolver (.query wire clientIp userId net))) r.domain := by
  rw [answerOf] at h
  rw [step,resolverStep]
  cases hparse : dns.parse wire with
  | none =>
    rw [hparse] at h
    rw [←Option.some.inj h] at hblocked
    cases hblocked
  | some request =>
    rw [hparse] at h
    dsimp only at h ⊢
    rw [arriveAnswer] at h
    rw [arrive]
    split at h
    · rw [←Option.some.inj h,forward_blocked] at hblocked
      cases hblocked
    rename_i hlive
    split at h
    · rw [←Option.some.inj h,forward_blocked] at hblocked
      cases hblocked
    rename_i hwhite
    split at h
    · rename_i hblack
      rw [←Option.some.inj h]
      exact Or.inl (matchChain_iff.mp hblack)
    rename_i hblack
    rw [if_neg hlive,if_neg hwhite,if_neg hblack]
    exact continueWalk_blocked h hblocked

/-- A name sinkholed after a read of the cache has a reason. -/
theorem read_blocked {i : ℕ} {up : Bool} {net : Server → Exchange} {r : ResolveResult}
    (h : answerOf dns cfg s (.resolver (.read i up net))=some r) (hblocked : r.blocked=true) :
    BlockReason s (step dns cfg s (.resolver (.read i up net))) r.domain := by
  rw [answerOf] at h
  rw [step,resolverStep]
  cases hw : s.walks[i]? with
  | none =>
    rw [hw] at h
    cases h
  | some w =>
    rw [hw] at h
    dsimp only [Option.bind_some] at h ⊢
    unfold nextAnswer at h
    unfold readNext
    cases hcandidates : w.candidates with
    | nil =>
      have hdone : continueAnswer dns cfg {s with walks := s.walks.eraseIdx i} w net=some r := by
        rw [hcandidates] at h
        rw [continueAnswer,if_pos hcandidates]
        exact h
      have hreason := continueWalk_blocked hdone hblocked
      rw [continueWalk,if_pos hcandidates] at hreason
      exact hreason
    | cons candidate candidates =>
      have hread : readAnswer dns cfg {s with walks := s.walks.eraseIdx i} w candidate candidates
          up net=some r := by
        rw [hcandidates] at h
        exact h
      exact readCandidate_blocked hread hblocked

/-- Every sinkholed name has a reason. -/
theorem blocked_reason {e : Event} {r : ResolveResult} (h : answerOf dns cfg s e=some r)
    (hblocked : r.blocked=true) : BlockReason s (step dns cfg s e) r.domain := by
  cases e with
  | resolver e =>
    cases e with
    | query wire clientIp userId net => exact query_blocked h hblocked
    | read i up net => exact read_blocked h hblocked
    | runTask i ok ip => cases h
  | _ => cases h

end Blocks

end ScamLens.ResolverAnswers
