import ScamLens.TableFrames

/-!
# What a single event can change outside Postgres

The same for the cached verdicts, the lists in memory, the background tasks and
the clock.
-/

namespace ScamLens.ServiceFrames

open ExpiringStores KeyedTables ListRefresh PythonText Resolver ScanVerdicts Services TableFrames
  Tables Typosquat Upstream VerdictCache VerdictStore

section Effects

variable {dns : Dnslib} {cfg : Config} {s : Deployment} {d : Text}

/-- The events that write a cache entry of the domain, and what they write. -/
def WritesEntry (cfg : Config) (s : Deployment) (d : Text) (entry : Expiring CachedJson) :
    Event → Prop
  | .resolver (.runTask i ok _) => ok=true ∧
      ((∃ v ttl, s.tasks[i]?=some (.cacheSet d v ttl) ∧ entry=⟨v.payload,s.now+ttl⟩) ∨
        (s.tasks[i]?=some (.claimScan d) ∧ getLive s.redis.verdicts s.now d=none ∧
          entry=⟨pendingPayload,s.now+cfg.unknownTtl⟩))
  | .scanner (.saveCache domain v) =>
    domain=d ∧ entry=⟨savedPayload v,s.now+pickTtl cfg v.verdict⟩
  | .scanner (.saveError domain reason) =>
    domain=d ∧ entry=⟨errorPayload reason,s.now+cfg.unknownTtl⟩
  | _ => False

/-- A cache entry is there before a task runs or written by it. -/
theorem lookup_verdicts_perform {ip : Option Text} {task : Task} {entry : Expiring CachedJson}
    (h : (perform cfg s ip task).redis.verdicts.lookup d=some entry) :
    s.redis.verdicts.lookup d=some entry ∨
      (∃ v ttl, task=.cacheSet d v ttl ∧ entry=⟨v.payload,s.now+ttl⟩) ∨
      (task=.claimScan d ∧ getLive s.redis.verdicts s.now d=none ∧
        entry=⟨pendingPayload,s.now+cfg.unknownTtl⟩) := by
  cases task with
  | cacheSet domain v ttl =>
    rw [perform,VerdictCache.cacheSet,Redis.putVerdict,setFor,lookup_insert_ite] at h
    split at h
    · rename_i hd
      exact Or.inr (Or.inl ⟨v,ttl,hd ▸ rfl,(Option.some.inj h).symm⟩)
    · exact Or.inl h
  | claimScan domain =>
    obtain hold|⟨rfl,hfree,he⟩ := lookup_setIfAbsent h
    · exact Or.inl hold
    · exact Or.inr (Or.inr ⟨rfl,hfree,he⟩)
  | _ => exact Or.inl h

/-- A cache entry is there before the scanner writes or written by it. -/
theorem lookup_verdicts_scanner {e : ScannerEvent} {entry : Expiring CachedJson}
    (h : (step dns cfg s (.scanner e)).redis.verdicts.lookup d=some entry) :
    s.redis.verdicts.lookup d=some entry ∨ WritesEntry cfg s d entry (.scanner e) := by
  cases e with
  | saveCache domain v =>
    rw [step,scannerStep,lookup_saveCache] at h
    split at h
    · rename_i hd
      exact Or.inr ⟨hd.symm,(Option.some.inj h).symm⟩
    · exact Or.inl h
  | saveError domain reason =>
    rw [step,scannerStep,lookup_saveErrorCache] at h
    split at h
    · rename_i hd
      exact Or.inr ⟨hd.symm,(Option.some.inj h).symm⟩
    · exact Or.inl h
  | _ => exact Or.inl h

/-- A cache entry is there before an event or written by it. -/
theorem lookup_verdicts_step {e : Event} {entry : Expiring CachedJson}
    (h : (step dns cfg s e).redis.verdicts.lookup d=some entry) :
    s.redis.verdicts.lookup d=some entry ∨ WritesEntry cfg s d entry e := by
  cases e with
  | resolver e =>
    cases e with
    | query wire clientIp userId net =>
      rw [(step_query_same wire clientIp userId net).2.2.1] at h
      exact Or.inl h
    | read i up net =>
      rw [(step_read_same i up net).2.2.1] at h
      exact Or.inl h
    | runTask i ok ip =>
      obtain ⟨ht,hs⟩|⟨task,ht,hs⟩ := step_runTask dns cfg s i ok ip
      · rw [hs] at h
        exact Or.inl h
      · rw [hs] at h
        cases ok with
        | false => exact Or.inl h
        | true =>
          rw [if_pos rfl] at h
          obtain hold|⟨v,ttl,rfl,he⟩|⟨rfl,hfree,he⟩ := lookup_verdicts_perform h
          · exact Or.inl hold
          · exact Or.inr ⟨rfl,Or.inl ⟨v,ttl,ht,he⟩⟩
          · exact Or.inr ⟨rfl,Or.inr ⟨ht,hfree,he⟩⟩
  | scanner e => exact lookup_verdicts_scanner h
  | admin e =>
    cases e with
    | clearCaches domain =>
      rw [step,adminStep,Redis.deleteDomain,lookup_erase_ite] at h
      split at h
      · cases h
      · exact Or.inl h
    | _ => exact Or.inl h
  | _ => exact Or.inl h

/-- The four ways in which a cache entry comes about. -/
theorem writesEntry_cases {e : Event} {entry : Expiring CachedJson}
    (h : WritesEntry cfg s d entry e) :
    (∃ i ip v ttl, e=.resolver (.runTask i true ip) ∧ s.tasks[i]?=some (.cacheSet d v ttl) ∧
      entry=⟨v.payload,s.now+ttl⟩) ∨
    (∃ i ip, e=.resolver (.runTask i true ip) ∧ s.tasks[i]?=some (.claimScan d) ∧
      entry=⟨pendingPayload,s.now+cfg.unknownTtl⟩) ∨
    (∃ v, e=.scanner (.saveCache d v) ∧ entry=⟨savedPayload v,s.now+pickTtl cfg v.verdict⟩) ∨
    ∃ reason, e=.scanner (.saveError d reason) ∧
      entry=⟨errorPayload reason,s.now+cfg.unknownTtl⟩ := by
  cases e with
  | resolver e =>
    cases e with
    | runTask i ok ip =>
      obtain ⟨rfl,⟨v,ttl,ht,he⟩|⟨ht,-,he⟩⟩ := h
      · exact Or.inl ⟨i,ip,v,ttl,rfl,ht,he⟩
      · exact Or.inr (Or.inl ⟨i,ip,rfl,ht,he⟩)
    | _ => exact absurd h not_false
  | scanner e =>
    cases e with
    | saveCache domain v =>
      obtain ⟨rfl,he⟩ := h
      exact Or.inr (Or.inr (Or.inl ⟨v,rfl,he⟩))
    | saveError domain reason =>
      obtain ⟨rfl,he⟩ := h
      exact Or.inr (Or.inr (Or.inr ⟨reason,rfl,he⟩))
    | _ => exact absurd h not_false
  | _ => exact absurd h not_false

/-- An event writes one cache entry at most. -/
theorem WritesEntry.unique {e : Event} {c : Text} {entry other : Expiring CachedJson}
    (h : WritesEntry cfg s d entry e) (ho : WritesEntry cfg s c other e) : entry=other := by
  rcases writesEntry_cases h with ⟨i,ip,v,ttl,rfl,ht,he⟩|⟨i,ip,rfl,ht,he⟩|⟨v,rfl,he⟩|⟨reason,rfl,he⟩
  · obtain ⟨-,⟨v',ttl',ht',he'⟩|⟨ht',-,-⟩⟩ := ho
    · rw [ht] at ht'
      cases ht'
      rw [he,he']
    · rw [ht] at ht'
      cases ht'
  · obtain ⟨-,⟨v',ttl',ht',-⟩|⟨-,-,he'⟩⟩ := ho
    · rw [ht] at ht'
      cases ht'
    · rw [he,he']
  · rw [he,ho.2]
  · rw [he,ho.2]

/-- The DEL of an admin endpoint leaves no cache entry of its domain. -/
theorem lookup_verdicts_clearCaches :
    (step dns cfg s (.admin (.clearCaches d))).redis.verdicts.lookup d=none := by
  rw [step,adminStep,Redis.deleteDomain,lookup_erase_ite,if_pos rfl]

/-- Only a refresh changes the lists in memory. -/
theorem step_lists (dns : Dnslib) (cfg : Config) (s : Deployment) (e : Event) :
    (step dns cfg s e).lists=s.lists ∨
      ∃ part, e=.refresh part ∧ (step dns cfg s e).lists=refreshLists s.db s.lists part := by
  cases e with
  | resolver e =>
    cases e with
    | query wire clientIp userId net =>
      exact Or.inl (step_query_same wire clientIp userId net).2.2.2
    | read i up net => exact Or.inl (step_read_same i up net).2.2.2
    | runTask i ok ip =>
      obtain ⟨ht,hs⟩|⟨task,ht,hs⟩ := step_runTask dns cfg s i ok ip
      · exact Or.inl (congrArg _ hs)
      · rw [hs]
        cases ok <;> cases task <;> exact Or.inl rfl
  | scanner e => cases e <;> exact Or.inl rfl
  | admin e => cases e <;> exact Or.inl rfl
  | refresh part => exact Or.inr ⟨part,rfl,rfl⟩
  | _ => exact Or.inl rfl

/-- The blocklist in memory stays, or becomes what its query returns. -/
theorem step_blocklist (dns : Dnslib) (cfg : Config) (s : Deployment) (e : Event) :
    (step dns cfg s e).lists.blocklist=s.lists.blocklist ∨
      (step dns cfg s e).lists.blocklist=s.db.selectBlocklist := by
  obtain h|⟨part,-,h⟩ := step_lists dns cfg s e
  · exact Or.inl (congrArg _ h)
  · rw [h]
    cases part with
    | blocklist ok =>
      cases ok with
      | false => exact Or.inl rfl
      | true => exact Or.inr rfl
    | _ => exact Or.inl rfl

/-- The whitelist in memory stays, becomes what its query returns, or is
emptied by a failed read. -/
theorem step_whitelist_lists (dns : Dnslib) (cfg : Config) (s : Deployment) (e : Event) :
    (step dns cfg s e).lists.whitelist=s.lists.whitelist ∨
      (step dns cfg s e).lists.whitelist=s.db.selectWhitelist ∨
      (e=.refresh (.whitelist false) ∧ (step dns cfg s e).lists.whitelist=∅) := by
  obtain h|⟨part,he,h⟩ := step_lists dns cfg s e
  · exact Or.inl (congrArg _ h)
  · rw [h]
    cases part with
    | whitelist ok =>
      cases ok with
      | false => exact Or.inr (Or.inr ⟨he,rfl⟩)
      | true => exact Or.inr (Or.inl rfl)
    | _ => cases ‹Bool› <;> exact Or.inl rfl

/-- The tasks of a query that has its cached verdict. -/
theorem mem_resolveCached {lists : Lists} {net : Server → Exchange} {request : DNSRecord}
    {qname : Text} {qtype : QType} {cached : Option Verdict} {clientIp : Option Text}
    {userId : Option ℕ} {task : Task}
    (h : task∈(resolveCached dns cfg lists net request qname qtype cached clientIp userId).2) :
    (∃ entry, task=.resolveThenLog entry) ∨ task=.enqueueIfNew qname ∨
      (∃ category v, task=.promoteToBlocklist qname category ∧ cached=some v ∧
        v.isBlocking=true) ∨
      ∃ hit, check lists.typosquat qname=some hit ∧
        (task=.cacheSet qname (typosquatVerdict hit) cfg.scamTtl ∨
          ∃ category, task=.promoteToBlocklist qname category) := by
  unfold resolveCached at h
  split at h
  · rename_i v hv
    obtain ⟨hcached,hblocking⟩ := Option.filter_eq_some_iff.mp hv
    rcases List.mem_cons.mp h with rfl|h
    · exact Or.inl ⟨_,rfl⟩
    · split at h
      · exact absurd h List.not_mem_nil
      · exact Or.inr (Or.inr (Or.inl ⟨_,v,List.mem_singleton.mp h,hcached,hblocking⟩))
  · split at h
    · exact absurd h List.not_mem_nil
    · split at h
      · rename_i hit hhit
        rcases List.mem_cons.mp h with rfl|h
        · exact Or.inr (Or.inr (Or.inr ⟨hit,hhit,Or.inl rfl⟩))
        rcases List.mem_cons.mp h with rfl|h
        · exact Or.inl ⟨_,rfl⟩
        · exact Or.inr (Or.inr (Or.inr ⟨hit,hhit,Or.inr ⟨_,List.mem_singleton.mp h⟩⟩))
      · dsimp only at h
        split at h
        · exact Or.inr (Or.inl (List.mem_singleton.mp h))
        · exact absurd h List.not_mem_nil

/-- What a query that is past its cache reads schedules. -/
theorem finish_tasks (w : Walk) (net : Server → Exchange) (cached : Option Verdict) :
    (finish dns cfg s w net cached).tasks=s.tasks++
      (resolveCached dns cfg s.lists net w.request w.qname (qtypeOf w.request.qtype) cached
        w.clientIp w.userId).2 := rfl

/-- What a query that goes on with its cache reads schedules. -/
theorem continueWalk_tasks (dns : Dnslib) (cfg : Config) (w : Walk) (net : Server → Exchange) :
    ∃ scheduled, (continueWalk dns cfg s w net).tasks=s.tasks++scheduled ∧
      (scheduled=[] ∨ scheduled=
        (resolveCached dns cfg s.lists net w.request w.qname (qtypeOf w.request.qtype) none
          w.clientIp w.userId).2) := by
  rw [continueWalk]
  split
  · exact ⟨_,finish_tasks w net none,Or.inr rfl⟩
  · exact ⟨[],(List.append_nil _).symm,Or.inl rfl⟩

/-- A query that arrives schedules nothing, the log of a block, or what it does
without a cached verdict. -/
theorem step_query_tasks (dns : Dnslib) (cfg : Config) (s : Deployment) (wire : Wire)
    (clientIp : Option Text) (userId : Option ℕ) (net : Server → Exchange) :
    ∃ scheduled, (step dns cfg s (.resolver (.query wire clientIp userId net))).tasks=
        s.tasks++scheduled ∧
      (scheduled=[] ∨ (∃ entry, scheduled=[.resolveThenLog entry]) ∨
        ∃ request qname qtype, scheduled=
          (resolveCached dns cfg s.lists net request qname qtype none clientIp userId).2) := by
  have hnone : ∃ scheduled, s.tasks=s.tasks++scheduled ∧
      (scheduled=[] ∨ (∃ entry, scheduled=[.resolveThenLog entry]) ∨
        ∃ request qname qtype, scheduled=
          (resolveCached dns cfg s.lists net request qname qtype none clientIp userId).2) :=
    ⟨[],(List.append_nil _).symm,Or.inl rfl⟩
  rw [step,resolverStep]
  split
  · exact hnone
  · rw [arrive]
    split
    · exact hnone
    split
    · exact hnone
    split
    · have hsource : blocklistVerdict.source="blocklist".toList := rfl
      refine ⟨_,rfl,Or.inr (Or.inl ?_)⟩
      rw [block,if_pos hsource]
      exact ⟨_,rfl⟩
    · obtain ⟨scheduled,htasks,hnil|hquery⟩ := continueWalk_tasks dns cfg _ net
      · exact ⟨scheduled,htasks,Or.inl hnil⟩
      · exact ⟨scheduled,htasks,Or.inr (Or.inr ⟨_,_,_,hquery⟩)⟩

/-- A cache read schedules nothing, or what its query does with the verdict
that it reads or without one. -/
theorem step_read_tasks (dns : Dnslib) (cfg : Config) (s : Deployment) (i : ℕ) (up : Bool)
    (net : Server → Exchange) :
    ∃ scheduled, (step dns cfg s (.resolver (.read i up net))).tasks=s.tasks++scheduled ∧
      (scheduled=[] ∨ ∃ w cached, s.walks[i]?=some w ∧
        scheduled=(resolveCached dns cfg s.lists net w.request w.qname (qtypeOf w.request.qtype)
          cached w.clientIp w.userId).2 ∧
        ∀ v, cached=some v → ∃ candidate candidates, w.candidates=candidate::candidates ∧
          cacheGet (s.redis.getVerdict s.now up candidate)=.ok (some v)) := by
  rw [step,resolverStep]
  cases hw : s.walks[i]? with
  | none => exact ⟨[],(List.append_nil _).symm,Or.inl rfl⟩
  | some w =>
    dsimp only
    rw [readNext]
    split
    · refine ⟨_,finish_tasks w net none,Or.inr ⟨w,none,rfl,rfl,fun v hv => ?_⟩⟩
      cases hv
    · rename_i candidate candidates hcandidates
      rw [readCandidate]
      split
      · exact ⟨[],(List.append_nil _).symm,Or.inl rfl⟩
      · rename_i v hv
        refine ⟨_,finish_tasks w net (some v),Or.inr ⟨w,some v,rfl,rfl,fun v' hv' => ?_⟩⟩
        exact ⟨candidate,candidates,hcandidates,Option.some.inj hv' ▸ hv⟩
      · obtain ⟨scheduled,htasks,hnil|hquery⟩ := continueWalk_tasks dns cfg
          {w with candidates := candidates} net
        · exact ⟨scheduled,htasks,Or.inl hnil⟩
        · refine ⟨scheduled,htasks,Or.inr ⟨w,none,rfl,hquery,fun v hv => ?_⟩⟩
          cases hv

/-- The command of a task may schedule the next command of its coroutine. -/
theorem perform_tasks (cfg : Config) (s : Deployment) (ip : Option Text) (task : Task) :
    ∃ scheduled, (perform cfg s ip task).tasks=s.tasks++scheduled ∧
      (scheduled=[] ∨ (∃ domain, scheduled=[.claimScan domain]) ∨
        ∃ domain, task=.claimScan domain ∧ scheduled=[.pushScan domain]) := by
  cases task with
  | enqueueIfNew domain =>
    refine ⟨_,rfl,?_⟩
    split
    · exact Or.inr (Or.inl ⟨domain,rfl⟩)
    · exact Or.inl rfl
  | claimScan domain =>
    refine ⟨_,rfl,?_⟩
    split
    · exact Or.inr (Or.inr ⟨domain,rfl,rfl⟩)
    · exact Or.inl rfl
  | _ => exact ⟨[],(List.append_nil _).symm,Or.inl rfl⟩

/-- Outside the DNS server no event touches its tasks. -/
theorem resolver_or_tasks_eq (dns : Dnslib) (cfg : Config) (s : Deployment) (e : Event) :
    (∃ r, e=.resolver r) ∨ (step dns cfg s e).tasks=s.tasks := by
  cases e with
  | resolver r => exact Or.inl ⟨r,rfl⟩
  | scanner e => cases e <;> exact Or.inr rfl
  | admin e => cases e <;> exact Or.inr rfl
  | _ => exact Or.inr rfl

/-- A task that runs leaves the tasks on the list, and adds at most a step of a
scan request. -/
theorem mem_tasks_runTask {i : ℕ} {ok : Bool} {ip : Option Text} {task : Task}
    (h : task∈(step dns cfg s (.resolver (.runTask i ok ip))).tasks) :
    task∈s.tasks ∨ (∃ domain, task=.claimScan domain) ∨ ∃ domain, task=.pushScan domain := by
  obtain ⟨-,hs⟩|⟨other,-,hs⟩ := step_runTask dns cfg s i ok ip
  · rw [hs] at h
    exact Or.inl h
  rw [hs] at h
  cases ok with
  | false => exact Or.inl (List.mem_of_mem_eraseIdx h)
  | true =>
    rw [if_pos rfl] at h
    obtain ⟨scheduled,htasks,hnew⟩ := perform_tasks cfg
      {s with tasks := s.tasks.eraseIdx i} ip other
    rw [htasks] at h
    obtain hold|hlast := List.mem_append.mp h
    · exact Or.inl (List.mem_of_mem_eraseIdx hold)
    obtain rfl|⟨domain,rfl⟩|⟨domain,-,rfl⟩ := hnew
    · exact absurd hlast List.not_mem_nil
    · exact Or.inr (Or.inl ⟨domain,List.mem_singleton.mp hlast⟩)
    · exact Or.inr (Or.inr ⟨domain,List.mem_singleton.mp hlast⟩)

/-- Where the tasks on the list after an event come from. -/
theorem mem_tasks_step {e : Event} {task : Task} (h : task∈(step dns cfg s e).tasks) :
    task∈s.tasks ∨ (∃ entry, task=.resolveThenLog entry) ∨ (∃ domain, task=.claimScan domain) ∨
      (∃ domain, task=.pushScan domain) ∨
      ∃ net request qname qtype cached clientIp userId,
        task∈(resolveCached dns cfg s.lists net request qname qtype cached clientIp userId).2 ∧
        ∀ v, cached=some v → ∃ i up w candidate candidates, e=.resolver (.read i up net) ∧
          s.walks[i]?=some w ∧ w.qname=qname ∧ w.candidates=candidate::candidates ∧
          cacheGet (s.redis.getVerdict s.now up candidate)=.ok (some v) := by
  obtain ⟨r,rfl⟩|hother := resolver_or_tasks_eq dns cfg s e
  swap
  · rw [hother] at h
    exact Or.inl h
  cases r with
  | query wire clientIp userId net =>
    obtain ⟨scheduled,htasks,rfl|⟨entry,rfl⟩|⟨request,qname,qtype,rfl⟩⟩ :=
      step_query_tasks dns cfg s wire clientIp userId net
    · rw [htasks,List.append_nil] at h
      exact Or.inl h
    · rw [htasks] at h
      exact (List.mem_append.mp h).imp_right fun h =>
        Or.inl ⟨entry,List.mem_singleton.mp h⟩
    · rw [htasks] at h
      refine (List.mem_append.mp h).imp_right fun h => Or.inr (Or.inr (Or.inr ?_))
      refine ⟨net,request,qname,qtype,none,clientIp,userId,h,fun v hv => ?_⟩
      cases hv
  | read i up net =>
    obtain ⟨scheduled,htasks,rfl|⟨w,cached,hw,rfl,hcached⟩⟩ :=
      step_read_tasks dns cfg s i up net
    · rw [htasks,List.append_nil] at h
      exact Or.inl h
    · rw [htasks] at h
      refine (List.mem_append.mp h).imp_right fun h => Or.inr (Or.inr (Or.inr ?_))
      refine ⟨net,w.request,w.qname,_,cached,w.clientIp,w.userId,h,fun v hv => ?_⟩
      obtain ⟨candidate,candidates,hcandidates,hread⟩ := hcached v hv
      exact ⟨i,up,w,candidate,candidates,rfl,hw,rfl,hcandidates,hread⟩
  | runTask i ok ip =>
    obtain hold|⟨domain,rfl⟩|⟨domain,rfl⟩ := mem_tasks_runTask h
    · exact Or.inl hold
    · exact Or.inr (Or.inr (Or.inl ⟨domain,rfl⟩))
    · exact Or.inr (Or.inr (Or.inr (Or.inl ⟨domain,rfl⟩)))

/-- The tasks that lead to a later block of the domain when they run. -/
def BlocksLater (c : Text) : Task → Prop
  | .promoteToBlocklist domain _ => domain=c
  | .cacheSet domain _ _ => domain=c
  | _ => False

/-- The event runs a task that leads to a later block of the domain. -/
def RunsLateBlock (s : Deployment) (c : Text) : Event → Prop
  | .resolver (.runTask i _ _) => ∃ task, s.tasks[i]?=some task ∧ BlocksLater c task
  | _ => False

/-- A query schedules such a task for its own name only, and only when it is
sinkholed for a cached verdict or as a typosquat. -/
theorem blocksLater_resolveCached {lists : Lists} {net : Server → Exchange} {request : DNSRecord}
    {qname c : Text} {qtype : QType} {cached : Option Verdict} {clientIp : Option Text}
    {userId : Option ℕ} {task : Task} (hb : BlocksLater c task)
    (h : task∈(resolveCached dns cfg lists net request qname qtype cached clientIp userId).2) :
    qname=c ∧ ((∃ v, cached=some v ∧ v.isBlocking=true) ∨
      (check lists.typosquat c).isSome=true) := by
  obtain ⟨entry,rfl⟩|rfl|⟨category,v,rfl,hv⟩|⟨hit,hhit,hsquat⟩ := mem_resolveCached h
  · exact absurd hb not_false
  · exact absurd hb not_false
  · exact ⟨hb,Or.inl ⟨v,hv⟩⟩
  · have hname : qname=c := by
      obtain rfl|⟨category,rfl⟩ := hsquat <;> exact hb
    rw [←hname,hhit]
    exact ⟨rfl,Or.inr rfl⟩

/-- The event makes a query for the name read a live blocking verdict. -/
def ReadsBlocking (s : Deployment) (c : Text) : Event → Prop
  | .resolver (.read i up _) => ∃ w candidate candidates v, s.walks[i]?=some w ∧ w.qname=c ∧
      w.candidates=candidate::candidates ∧
      cacheGet (s.redis.getVerdict s.now up candidate)=.ok (some v) ∧ v.isBlocking=true
  | _ => False

/-- A task that blocks a domain later is on the list before an event, or a
query for the domain is sinkholed as a typosquat or for a verdict it reads. -/
theorem blocksLater_step {c : Text} {e : Event} {task : Task} (hb : BlocksLater c task)
    (h : task∈(step dns cfg s e).tasks) :
    task∈s.tasks ∨ (check s.lists.typosquat c).isSome=true ∨ ReadsBlocking s c e := by
  obtain hold|⟨entry,rfl⟩|⟨domain,rfl⟩|⟨domain,rfl⟩|
    ⟨net,request,qname,qtype,cached,clientIp,userId,hmem,hcached⟩ := mem_tasks_step h
  · exact Or.inl hold
  · exact absurd hb not_false
  · exact absurd hb not_false
  · exact absurd hb not_false
  · obtain ⟨hname,⟨v,hv,hblocking⟩|hsquat⟩ := blocksLater_resolveCached hb hmem
    · obtain ⟨i,up,w,candidate,candidates,rfl,hw,hq,hcandidates,hread⟩ := hcached v hv
      exact Or.inr (Or.inr
        ⟨w,candidate,candidates,v,hw,hq.trans hname,hcandidates,hread,hblocking⟩)
    · exact Or.inr (Or.inl hsquat)

/-- A query caches nothing but typosquat verdicts. -/
theorem cacheSet_resolveCached {lists : Lists} {net : Server → Exchange} {request : DNSRecord}
    {qname : Text} {qtype : QType} {cached : Option Verdict} {clientIp : Option Text}
    {userId : Option ℕ} {v : Verdict} {ttl : ℕ}
    (h : Task.cacheSet d v ttl∈
      (resolveCached dns cfg lists net request qname qtype cached clientIp userId).2) :
    ∃ hit, v=typosquatVerdict hit := by
  obtain ⟨entry,he⟩|he|⟨category,v',he,-⟩|⟨hit,-,he|⟨category,he⟩⟩ := mem_resolveCached h
  · cases he
  · cases he
  · cases he
  · cases he
    exact ⟨hit,rfl⟩
  · cases he

/-- A task that caches a verdict is on the list before an event, or caches a
typosquat verdict. -/
theorem cacheSet_step {e : Event} {v : Verdict} {ttl : ℕ}
    (h : Task.cacheSet d v ttl∈(step dns cfg s e).tasks) :
    Task.cacheSet d v ttl∈s.tasks ∨ ∃ hit, v=typosquatVerdict hit := by
  obtain hold|⟨entry,he⟩|⟨domain,he⟩|⟨domain,he⟩|
    ⟨net,request,qname,qtype,cached,clientIp,userId,hmem,-⟩ := mem_tasks_step h
  · exact Or.inl hold
  · cases he
  · cases he
  · cases he
  · exact Or.inr (cacheSet_resolveCached hmem)

/-- What a removed place does not hold stays in the list. -/
theorem mem_eraseIdx_of_ne {α : Type*} {xs : List α} {i : ℕ} {x y : α} (h : x∈xs)
    (hi : xs[i]?=some y) (hne : y≠x) : x∈xs.eraseIdx i := by
  obtain ⟨j,hj⟩ := List.mem_iff_getElem?.mp h
  have hij : j≠i := by
    intro he
    rw [he,hi] at hj
    exact hne (Option.some.inj hj)
  exact List.mem_eraseIdx_iff_getElem?.mpr ⟨j,hij,hj⟩

/-- A task is done when it is run, and stays on the list until then. -/
theorem mem_tasks_step_of_mem {e : Event} {task : Task} (h : task∈s.tasks) :
    task∈(step dns cfg s e).tasks ∨
      ∃ i ok ip, e=.resolver (.runTask i ok ip) ∧ s.tasks[i]?=some task := by
  obtain ⟨r,rfl⟩|hother := resolver_or_tasks_eq dns cfg s e
  swap
  · rw [hother]
    exact Or.inl h
  cases r with
  | query wire clientIp userId net =>
    obtain ⟨scheduled,htasks,-⟩ :=
      step_query_tasks dns cfg s wire clientIp userId net
    rw [htasks]
    exact Or.inl (List.mem_append_left _ h)
  | read i up net =>
    obtain ⟨scheduled,htasks,-⟩ := step_read_tasks dns cfg s i up net
    rw [htasks]
    exact Or.inl (List.mem_append_left _ h)
  | runTask i ok ip =>
    obtain ⟨ht,hs⟩|⟨other,ht,hs⟩ := step_runTask dns cfg s i ok ip
    · rw [hs]
      exact Or.inl h
    · by_cases hother : other=task
      · exact Or.inr ⟨i,ok,ip,rfl,hother ▸ ht⟩
      · have hleft := mem_eraseIdx_of_ne h ht hother
        rw [hs]
        refine Or.inl ?_
        cases ok with
        | false => exact hleft
        | true =>
          rw [if_pos rfl]
          obtain ⟨scheduled,htasks,-⟩ := perform_tasks cfg
            {s with tasks := s.tasks.eraseIdx i} ip other
          rw [htasks]
          exact List.mem_append_left _ hleft

/-- Time does not run backwards. -/
theorem step_now (dns : Dnslib) (cfg : Config) (s : Deployment) (e : Event) :
     s.now≤(step dns cfg s e).now := by
  cases e with
  | tick seconds => exact Nat.le_add_right _ _
  | resolver e =>
    cases e with
    | query wire clientIp userId net =>
      exact (step_query_same wire clientIp userId net).1.ge
    | read i up net => exact (step_read_same i up net).1.ge
    | runTask i ok ip =>
      obtain ⟨ht,hs⟩|⟨task,ht,hs⟩ := step_runTask dns cfg s i ok ip
      · rw [hs]
      · rw [hs]
        cases ok <;> cases task <;> exact le_rfl
  | scanner e => cases e <;> exact le_rfl
  | admin e => cases e <;> exact le_rfl
  | _ => exact le_rfl

end Effects

end ScamLens.ServiceFrames
