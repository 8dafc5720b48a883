import ScamLens.EventRuns
import ScamLens.LockLeases
import ScamLens.LookupDomains

/-!
# Deep scans

A client starts a deep scan with one endpoint and polls another. Both look for
a stored result first and for the lock of the scan next, in two commands of
their own; the scan stores its result and deletes the lock, in two commands as
well. An answer is given for what the last command has found.
-/

namespace ScamLens.DeepScans

open EventRuns ExpiringStores KeyedTables LockLeases LookupDomains PythonText

/-- `DEEP_TTL_SECONDS` -/
def deepTtlSeconds : ℕ := 6*3600

/-- `DEEP_LOCK_TTL` -/
def deepLockTtl : ℕ := 90

/-- Seconds for which a failed scan is remembered. -/
def failureTtl : ℕ := 300

/-- How the request to the scanner ends. -/
inductive ScannerOutcome where
  /-- A status other than 200. -/
  | refused (statusCode : ℤ)
  /-- The JSON object of a 200. -/
  | report (json : Text)
  /-- An exception, also of the JSON decoder. -/
  | raised (message : Text)
  deriving DecidableEq

/-- The JSON objects stored for a domain. -/
inductive DeepReport where
  | scanned (json : Text)
  | failed (domain error : Text)
  deriving DecidableEq

/-- What `_run_deep_scan` stores, and for how many seconds. -/
def deepResult (domain : Text) : ScannerOutcome → DeepReport×ℕ
  | .refused statusCode =>
    (.failed domain ("scanner returned ".toList++ofInt statusCode),failureTtl)
  | .report json => (.scanned json,deepTtlSeconds)
  | .raised message => (.failed domain (message.take 300),failureTtl)

/-- What lies under a lock key. -/
structure DeepLock where
  /-- The stored string. -/
  value : Text
  /-- The scan that has set it, which the string does not tell. -/
  scan : ℕ
  deriving DecidableEq

/-- A scan whose claim was granted and whose lock it has not deleted. -/
structure DeepScan where
  /-- Serial number of its claim. -/
  id : ℕ
  /-- Domain that it scans. -/
  domain : Text
  /-- Whether its result is stored. -/
  stored : Bool
  deriving DecidableEq

/-- A request behind its first command, which has found no result. -/
structure DeepRequest where
  /-- The client. -/
  client : ℕ
  /-- The normalized domain. -/
  domain : Text
  /-- Whether a scan of the domain has stored its result since, which a waiting
  `deep_get` does not see. -/
  crossed : Bool
  deriving DecidableEq

/-- The answers of both endpoints. -/
inductive DeepResponse where
  | invalid
  | done (domain : Text) (report : DeepReport)
  | pending (domain : Text)
  | idle (domain : Text)
  deriving DecidableEq

/-- A client that was told that a domain is pending, and the scan that held
the lock then. -/
structure Pledge where
  /-- The client. -/
  client : ℕ
  /-- The domain. -/
  domain : Text
  /-- The scan. -/
  scan : ℕ
  deriving DecidableEq

/-- The API and its keys in Redis. -/
structure DeepApi where
  /-- The current second. -/
  now : ℕ
  /-- Results under `deep:<domain>`. -/
  results : ExpiringStore Text DeepReport
  /-- Locks under `deep_lock:<domain>`. -/
  locks : ExpiringStore Text DeepLock
  /-- Scans in flight, in the order of their claims. -/
  scans : List DeepScan
  /-- Serial number of the next claim. -/
  nextScan : ℕ
  /-- Reads that wait for their second command. -/
  gets : List DeepRequest
  /-- Starts that wait for their second command. -/
  posts : List DeepRequest
  /-- Scans that have stored a result. -/
  storedBy : List ℕ
  /-- Clients that were told to wait. -/
  pledges : List Pledge

/-- One command, or the passing of time. -/
inductive Event where
  | tick (seconds : ℕ)
  /-- `deep_get` looks for a result. -/
  | getResult (client : ℕ) (domain : Text)
  /-- A waiting `deep_get` looks for a lock. -/
  | getLock (i : ℕ)
  /-- `deep_post` looks for a result. -/
  | postResult (client : ℕ) (domain : Text)
  /-- A waiting `deep_post` claims the lock. -/
  | postClaim (i : ℕ)
  /-- A scan stores its result. -/
  | store (scan : ℕ) (outcome : ScannerOutcome)
  /-- A scan deletes the lock. -/
  | finish (scan : ℕ)
  /-- An admin deletes a result. -/
  | deleteResult (domain : Text)
  deriving DecidableEq

/-- An empty Redis and no request. -/
def DeepApi.init : DeepApi where
  now := 0
  results := ∅
  locks := ∅
  scans := []
  nextScan := 0
  gets := []
  posts := []
  storedBy := []
  pledges := []

/-- The result that is stored for a domain. -/
def liveResult (s : DeepApi) (domain : Text) : Option DeepReport :=
  getLive s.results s.now domain

/-- The lock that is set for a domain. -/
def liveLock (s : DeepApi) (domain : Text) : Option DeepLock := getLive s.locks s.now domain

/-- The answer of an endpoint to its first command, if it ends there. -/
def firstAnswer (s : DeepApi) (domain : Text) : Option DeepResponse :=
  match lookupDomain domain with
  | none => some .invalid
  | some d => (liveResult s d).map (.done d)

/-- The request that waits for its second command behind the first one. -/
def waitingRequest (s : DeepApi) (client : ℕ) (domain : Text) : List DeepRequest :=
  match lookupDomain domain with
  | none => []
  | some d => if (liveResult s d).isNone then [⟨client,d,false⟩] else []

/-- The answers that the endpoints send, with their clients. -/
def respond (s : DeepApi) : Event → Option (ℕ×DeepResponse)
  | .getResult client domain => (firstAnswer s domain).map (client,·)
  | .getLock i => (s.gets[i]?).map fun r =>
    (r.client,if (liveLock s r.domain).isSome then .pending r.domain else .idle r.domain)
  | .postResult client domain => (firstAnswer s domain).map (client,·)
  | .postClaim i => (s.posts[i]?).map fun r => (r.client,.pending r.domain)
  | _ => none

/-- A client is told that the scan holding the lock is pending. -/
def pledgeFor (r : DeepRequest) (lock : DeepLock) : Pledge := ⟨r.client,r.domain,lock.scan⟩

/-- The lock read of a waiting `deep_get`. -/
def getLockStep (s : DeepApi) (i : ℕ) : DeepApi :=
  match s.gets[i]? with
  | none => s
  | some r =>
    { s with
      gets := s.gets.eraseIdx i
      pledges := s.pledges++((liveLock s r.domain).map (pledgeFor r)).toList }

/-- The claim of a waiting `deep_post`; a granted claim starts the scan. -/
def postClaimStep (s : DeepApi) (i : ℕ) : DeepApi :=
  match s.posts[i]? with
  | none => s
  | some r =>
    let s := {s with posts := s.posts.eraseIdx i}
    match liveLock s r.domain with
    | some lock => {s with pledges := s.pledges++[pledgeFor r lock]}
    | none =>
      let lock : DeepLock := ⟨"1".toList,s.nextScan⟩
      { s with
        locks := setFor s.locks s.now deepLockTtl r.domain lock
        scans := s.scans++[⟨s.nextScan,r.domain,false⟩]
        nextScan := s.nextScan+1
        pledges := s.pledges++[pledgeFor r lock] }

/-- A request that waits while a result of the domain is stored. -/
def DeepRequest.cross (r : DeepRequest) (domain : Text) : DeepRequest :=
  if r.domain=domain then {r with crossed := true} else r

/-- A scan stores its result, once. -/
def storeStep (s : DeepApi) (id : ℕ) (outcome : ScannerOutcome) : DeepApi :=
  match s.scans.find? (fun scan => scan.id=id ∧ scan.stored=false) with
  | none => s
  | some scan =>
    let result := deepResult scan.domain outcome
    { s with
      results := setFor s.results s.now result.2 scan.domain result.1
      scans := s.scans.map fun other => if other.id=id then {other with stored := true} else other
      gets := s.gets.map (·.cross scan.domain)
      storedBy := id::s.storedBy }

/-- A scan that has stored its result deletes the lock of its domain, whoever
has set it. -/
def finishStep (s : DeepApi) (id : ℕ) : DeepApi :=
  match s.scans.find? (fun scan => scan.id=id ∧ scan.stored=true) with
  | none => s
  | some scan =>
    { s with
      locks := s.locks.erase scan.domain
      scans := s.scans.filter fun other => other.id≠id ∨ other.domain≠scan.domain }

/-- One step of the API. -/
def step (s : DeepApi) : Event → DeepApi
  | .tick seconds => {s with now := s.now+seconds}
  | .getResult client domain => {s with gets := s.gets++waitingRequest s client domain}
  | .getLock i => getLockStep s i
  | .postResult client domain => {s with posts := s.posts++waitingRequest s client domain}
  | .postClaim i => postClaimStep s i
  | .store id outcome => storeStep s id outcome
  | .finish id => finishStep s id
  | .deleteResult domain => {s with results := s.results.erase domain}

/-- Scans of a domain that are in flight. -/
def inFlight (s : DeepApi) (domain : Text) : List DeepScan := s.scans.filter (·.domain=domain)

/-- The client was told that the domain is pending. -/
def WasPending (s : DeepApi) (r : DeepRequest) : Prop :=
  ∃ pledge∈s.pledges, pledge.client=r.client ∧ pledge.domain=r.domain

/-- A scan of the domain is in flight and its lock key has expired. -/
def Outlived (s : DeepApi) (domain : Text) : Prop :=
  inFlight s domain≠[] ∧ liveLock s domain=none

/-- Between the two commands of a `deep_get`, a scan of the domain has stored its
result, and the lock key is deleted. -/
def Overtaken (s : DeepApi) (r : DeepRequest) : Prop :=
  r.crossed=true ∧ liveLock s r.domain=none

/-- No claim is tried for a domain, and no lock is read for a client that was
told pending, while a scan of the domain has outlived its lock; and no scan
overtakes a `deep_get` of such a client. -/
def Timely (s : DeepApi) : Event → Prop
  | .postClaim i => ∀ r∈s.posts[i]?, ¬Outlived s r.domain
  | .getLock i => ∀ r∈s.gets[i]?, WasPending s r → ¬Outlived s r.domain ∧ ¬Overtaken s r
  | _ => True

instance (s : DeepApi) (r : DeepRequest) : Decidable (WasPending s r) :=
  inferInstanceAs (Decidable (∃ pledge∈s.pledges, _))

instance (s : DeepApi) (domain : Text) : Decidable (Outlived s domain) :=
  inferInstanceAs (Decidable (_ ∧ _))

instance (s : DeepApi) (r : DeepRequest) : Decidable (Overtaken s r) :=
  inferInstanceAs (Decidable (_ ∧ _))

instance (s : DeepApi) : ∀ e, Decidable (Timely s e)
  | .postClaim i => inferInstanceAs (Decidable (∀ r∈s.posts[i]?, _))
  | .getLock i => inferInstanceAs (Decidable (∀ r∈s.gets[i]?, _ → _))
  | .tick _ => isTrue trivial
  | .getResult _ _ => isTrue trivial
  | .postResult _ _ => isTrue trivial
  | .store _ _ => isTrue trivial
  | .finish _ => isTrue trivial
  | .deleteResult _ => isTrue trivial

/-- A client told idle was told pending only for scans that have stored their
result, and no result is left. -/
def HonestIdle (s : DeepApi) (e : Event) : Prop :=
  ∀ client domain, respond s e=some (client,.idle domain) →
    ∀ pledge∈s.pledges, pledge.client=client → pledge.domain=domain →
      pledge.scan∈s.storedBy ∧ liveResult s domain=none

/-- The lock of a domain as a lease of its scans. -/
def viewOf (s : DeepApi) (domain : Text) : LockView ℕ where
  now := s.now
  lock := (s.locks.lookup domain).map fun entry => ⟨entry.value.scan,entry.deadline⟩
  holders := (inFlight s domain).map (·.id)

/-- The scan of a number is in flight for the domain, or has stored its result. -/
def Known (s : DeepApi) (id : ℕ) (domain : Text) : Prop :=
  (∃ scan∈s.scans, scan.id=id ∧ scan.domain=domain) ∨ id∈s.storedBy

/-- Every lock and every pledge is about a scan that is in flight or has stored
its result. -/
structure Accounted (s : DeepApi) : Prop where
  /-- A scan is marked as stored when its result is. -/
  stored : ∀ scan∈s.scans, scan.stored=true → scan.id∈s.storedBy
  /-- A lock belongs to a known scan. -/
  locked : ∀ domain entry, s.locks.lookup domain=some entry → Known s entry.value.scan domain
  /-- A pledge is about a known scan. -/
  pledged : ∀ pledge∈s.pledges, Known s pledge.scan pledge.domain

/-- The lock is live for a reader exactly when its view is. -/
theorem liveLock_isSome_iff {s : DeepApi} {domain : Text} :
    (liveLock s domain).isSome=true ↔ (viewOf s domain).Live := by
  rw [Option.isSome_iff_exists,LockView.Live,viewOf]
  simp only [liveLock,getLive_eq_some,Option.map_eq_some_iff]
  constructor
  · intro h
    obtain ⟨lock,entry,he,hd,-⟩ := h
    exact ⟨_,⟨entry,he,rfl⟩,hd⟩
  · intro h
    obtain ⟨_,⟨entry,he,rfl⟩,hd⟩ := h
    exact ⟨entry.value,entry,he,hd,rfl⟩

/-- Scans that keep their numbers and domains keep the view. -/
theorem viewOf_congr {s t : DeepApi} {domain : Text} (hnow : t.now=s.now)
    (hlock : t.locks.lookup domain=s.locks.lookup domain)
    (hscans : (inFlight t domain).map (·.id)=(inFlight s domain).map (·.id)) :
    viewOf t domain=viewOf s domain := by
  simp only [viewOf,hnow,hlock,hscans]

/-- A claim that finds no request does nothing; it is refused by a live lock,
and else sets the lock and starts a scan. -/
theorem postClaimStep_cases (s : DeepApi) (i : ℕ) :
    (s.posts[i]?=none ∧ postClaimStep s i=s) ∨
    ∃ r, s.posts[i]?=some r ∧
      ((∃ lock, liveLock s r.domain=some lock ∧ postClaimStep s i=
          { s with
            posts := s.posts.eraseIdx i
            pledges := s.pledges++[pledgeFor r lock] }) ∨
        (liveLock s r.domain=none ∧ postClaimStep s i=
          { s with
            posts := s.posts.eraseIdx i
            locks := setFor s.locks s.now deepLockTtl r.domain ⟨"1".toList,s.nextScan⟩
            scans := s.scans++[⟨s.nextScan,r.domain,false⟩]
            nextScan := s.nextScan+1
            pledges := s.pledges++[pledgeFor r ⟨"1".toList,s.nextScan⟩] })) := by
  cases hr : s.posts[i]? with
  | none =>
    rw [postClaimStep,hr]
    exact Or.inl ⟨rfl,rfl⟩
  | some r =>
    have hstep : liveLock {s with posts := s.posts.eraseIdx i} r.domain=liveLock s r.domain := rfl
    rw [postClaimStep,hr]
    dsimp only
    rw [hstep]
    cases hl : liveLock s r.domain with
    | none => exact Or.inr ⟨r,rfl,Or.inr ⟨hl,rfl⟩⟩
    | some lock => exact Or.inr ⟨r,rfl,Or.inl ⟨lock,hl,rfl⟩⟩

/-- A store by no scan does nothing; a store by a scan marks it. -/
theorem storeStep_cases (s : DeepApi) (id : ℕ) (outcome : ScannerOutcome) :
    storeStep s id outcome=s ∨
    ∃ scan∈s.scans, scan.id=id ∧ storeStep s id outcome=
      { s with
        results := setFor s.results s.now (deepResult scan.domain outcome).2 scan.domain
          (deepResult scan.domain outcome).1
        scans := s.scans.map fun other =>
          if other.id=id then {other with stored := true} else other
        gets := s.gets.map (·.cross scan.domain)
        storedBy := id::s.storedBy } := by
  cases hf : s.scans.find? (fun scan => scan.id=id ∧ scan.stored=false) with
  | none =>
    rw [storeStep,hf]
    exact Or.inl rfl
  | some scan =>
    have hscan := List.find?_some hf
    simp only [decide_eq_true_eq] at hscan
    rw [storeStep,hf]
    exact Or.inr ⟨scan,List.mem_of_find?_eq_some hf,hscan.1,rfl⟩

/-- A finish by no scan does nothing; a finish by a scan deletes the lock. -/
theorem finishStep_cases (s : DeepApi) (id : ℕ) :
    finishStep s id=s ∨
    ∃ scan∈s.scans, scan.id=id ∧ scan.stored=true ∧ finishStep s id=
      { s with
        locks := s.locks.erase scan.domain
        scans := s.scans.filter fun other => other.id≠id ∨ other.domain≠scan.domain } := by
  cases hf : s.scans.find? (fun scan => scan.id=id ∧ scan.stored=true) with
  | none =>
    rw [finishStep,hf]
    exact Or.inl rfl
  | some scan =>
    have hscan := List.find?_some hf
    simp only [decide_eq_true_eq] at hscan
    rw [finishStep,hf]
    exact Or.inr ⟨scan,List.mem_of_find?_eq_some hf,hscan.1,hscan.2,rfl⟩

/-- A claim acts on the lock of its domain alone. -/
theorem viewOf_postClaim (s : DeepApi) (i : ℕ) (domain : Text) :
    viewOf (postClaimStep s i) domain=viewOf s domain ∨
      ((∃ r∈s.posts[i]?, r.domain=domain) ∧
        viewOf (postClaimStep s i) domain=claim deepLockTtl (viewOf s domain) s.nextScan) := by
  rcases postClaimStep_cases s i with ⟨-,hs⟩|⟨r,hr,⟨lock,-,hs⟩|⟨hfree,hs⟩⟩
  · rw [hs]
    exact Or.inl rfl
  · rw [hs]
    exact Or.inl rfl
  · rw [hs]
    by_cases hd : r.domain=domain
    · refine Or.inr ⟨⟨r,hr,hd⟩,?_⟩
      have hdead : ¬(viewOf s domain).Live := by
        rw [←liveLock_isSome_iff,←hd,Option.not_isSome_iff_eq_none]
        exact hfree
      rw [claim,if_neg hdead,viewOf,inFlight,setFor,hd]
      simp only [lookup_insert_ite,if_true,Option.map_some,List.filter_append,List.map_append,
        List.filter_cons,decide_true,List.filter_nil,List.map_cons,List.map_nil]
      rfl
    · refine Or.inl (viewOf_congr rfl ?_ ?_)
      · exact (lookup_insert_ite s.locks r.domain domain _).trans (if_neg (Ne.symm hd))
      · simp only [inFlight,List.filter_append]
        rw [List.filter_cons_of_neg (by simpa using hd),List.filter_nil,List.append_nil]

/-- A stored result leaves the locks alone. -/
theorem viewOf_store (s : DeepApi) (id : ℕ) (outcome : ScannerOutcome) (domain : Text) :
    viewOf (storeStep s id outcome) domain=viewOf s domain := by
  rcases storeStep_cases s id outcome with hs|⟨scan,-,-,hs⟩
  · rw [hs]
  · rw [hs]
    refine viewOf_congr rfl rfl ?_
    simp only [inFlight,List.filter_map,List.map_map]
    have hdomain : ((fun scan : DeepScan => decide (scan.domain=domain)) ∘ fun other =>
        if other.id=id then {other with stored := true} else other)=
        fun scan => decide (scan.domain=domain) := by
      funext scan
      rw [Function.comp_apply]
      split <;> rfl
    rw [hdomain]
    refine List.map_congr_left fun scan _ => ?_
    rw [Function.comp_apply]
    split <;> rfl

/-- A finished scan releases the lock of its domain and no other. -/
theorem viewOf_finish (s : DeepApi) (id : ℕ) (domain : Text) :
    viewOf (finishStep s id) domain=viewOf s domain ∨
      viewOf (finishStep s id) domain=release (viewOf s domain) id := by
  rcases finishStep_cases s id with hs|⟨scan,-,-,-,hs⟩
  · rw [hs]
    exact Or.inl rfl
  · rw [hs]
    by_cases hd : scan.domain=domain
    · refine Or.inr ?_
      rw [viewOf,release,viewOf,inFlight,inFlight,List.filter_filter,List.filter_map,hd]
      simp only [Finmap.lookup_erase,Option.map_none,List.filter_filter]
      congr 2
      refine List.filter_congr fun other _ => ?_
      by_cases ho : other.domain=domain <;> simp [ho]
    · refine Or.inl (viewOf_congr rfl (Finmap.lookup_erase_ne (Ne.symm hd)) ?_)
      rw [inFlight,inFlight,List.filter_filter]
      congr 1
      refine List.filter_congr fun other _ => ?_
      by_cases ho : other.domain=domain
      · simp [ho,Ne.symm hd]
      · simp [ho]

/-- A timely step keeps the lock of every domain with at most one scan. -/
theorem sole_step {s : DeepApi} {e : Event} (h : ∀ domain, Sole (viewOf s domain))
    (ht : Timely s e) (domain : Text) : Sole (viewOf (step s e) domain) := by
  cases e with
  | tick seconds => exact (h domain).wait seconds
  | getLock i =>
    rw [step,getLockStep]
    split <;> exact h domain
  | postClaim i =>
    rw [step]
    obtain hs|⟨⟨r,hr,hd⟩,hs⟩ := viewOf_postClaim s i domain
    · rw [hs]
      exact h domain
    · have hcovered : Covered (viewOf s domain) := by
        by_cases hfree : inFlight s r.domain=[]
        · exact Or.inl (by rw [viewOf,←hd,hfree]; rfl)
        · have hlive : (liveLock s r.domain).isSome=true :=
            Option.isSome_iff_ne_none.mpr fun hnone => ht r hr ⟨hfree,hnone⟩
          exact Or.inr (liveLock_isSome_iff.mp (hd ▸ hlive))
      rw [hs]
      exact (h domain).claim hcovered deepLockTtl s.nextScan
  | store id outcome =>
    rw [step,viewOf_store]
    exact h domain
  | finish id =>
    rw [step]
    rcases viewOf_finish s id domain with hs|hs <;> rw [hs]
    · exact h domain
    · exact (h domain).release id
  | _ => exact h domain

/-- What a step does to the scans, their locks and the pledges. -/
inductive Change (s t : DeepApi) : Prop where
  /-- No scan starts, stores or ends, and a new pledge is made for a live lock. -/
  | quiet (locks : t.locks=s.locks) (scans : t.scans=s.scans) (storedBy : t.storedBy=s.storedBy)
    (pledges : ∀ pledge∈t.pledges, pledge∈s.pledges ∨
      ∃ r lock, liveLock s r.domain=some lock ∧ pledge=pledgeFor r lock)
  /-- A scan starts with its lock and a pledge. -/
  | started (r : DeepRequest)
    (locks : t.locks=setFor s.locks s.now deepLockTtl r.domain ⟨"1".toList,s.nextScan⟩)
    (scans : t.scans=s.scans++[⟨s.nextScan,r.domain,false⟩]) (storedBy : t.storedBy=s.storedBy)
    (pledges : t.pledges=s.pledges++[pledgeFor r ⟨"1".toList,s.nextScan⟩])
  /-- A scan stores its result and is marked. -/
  | stored (id : ℕ) (locks : t.locks=s.locks)
    (scans : t.scans=s.scans.map fun other =>
      if other.id=id then {other with stored := true} else other)
    (storedBy : t.storedBy=id::s.storedBy) (pledges : t.pledges=s.pledges)
  /-- A scan ends and deletes the lock of its domain. -/
  | finished (done : DeepScan) (hdone : done∈s.scans) (mark : done.stored=true)
    (locks : t.locks=s.locks.erase done.domain)
    (scans : t.scans=s.scans.filter fun other => other.id≠done.id ∨ other.domain≠done.domain)
    (storedBy : t.storedBy=s.storedBy) (pledges : t.pledges=s.pledges)

/-- A step makes one of these changes. -/
theorem change_step (s : DeepApi) (e : Event) : Change s (step s e) := by
  have hquiet {t : DeepApi} (hlocks : t.locks=s.locks) (hscans : t.scans=s.scans)
      (hstoredBy : t.storedBy=s.storedBy) (hpledges : t.pledges=s.pledges) : Change s t :=
    .quiet hlocks hscans hstoredBy fun pledge hp => .inl (hpledges ▸ hp)
  cases e with
  | getLock i =>
    rw [step,getLockStep]
    split
    · exact hquiet rfl rfl rfl rfl
    · rename_i r hr
      refine .quiet rfl rfl rfl fun pledge hp => (List.mem_append.mp hp).imp_right fun hp => ?_
      obtain ⟨lock,hl,hpledge⟩ := Option.map_eq_some_iff.mp (Option.mem_toList.mp hp)
      exact ⟨r,lock,hl,hpledge.symm⟩
  | postClaim i =>
    rw [step]
    rcases postClaimStep_cases s i with ⟨-,hs⟩|⟨r,-,⟨lock,hl,hs⟩|⟨-,hs⟩⟩ <;> rw [hs]
    · exact hquiet rfl rfl rfl rfl
    · refine .quiet rfl rfl rfl fun pledge hp => (List.mem_append.mp hp).imp_right fun hp => ?_
      exact ⟨r,lock,hl,List.mem_singleton.mp hp⟩
    · exact .started r rfl rfl rfl rfl
  | store id outcome =>
    rw [step]
    rcases storeStep_cases s id outcome with hs|⟨scan,-,-,hs⟩ <;> rw [hs]
    · exact hquiet rfl rfl rfl rfl
    · exact .stored id rfl rfl rfl rfl
  | finish id =>
    rw [step]
    rcases finishStep_cases s id with hs|⟨done,hdone,rfl,hmark,hs⟩ <;> rw [hs]
    · exact hquiet rfl rfl rfl rfl
    · exact .finished done hdone hmark rfl rfl rfl rfl
  | _ => exact hquiet rfl rfl rfl rfl

/-- A scan stays known. -/
theorem known_step {s : DeepApi} {id : ℕ} {domain : Text} (h : Known s id domain)
    (hstored : ∀ scan∈s.scans, scan.stored=true → scan.id∈s.storedBy) (e : Event) :
    Known (step s e) id domain := by
  cases change_step s e with
  | quiet _ hscans hstoredBy _ => rwa [Known,hscans,hstoredBy]
  | started r _ hscans hstoredBy _ =>
    rw [Known,hscans,hstoredBy]
    refine h.imp_left fun hscan => ?_
    obtain ⟨scan,hmem,hscan⟩ := hscan
    exact ⟨scan,List.mem_append_left _ hmem,hscan⟩
  | stored other _ hscans hstoredBy _ =>
    rw [Known,hscans,hstoredBy]
    rcases h with ⟨scan,hmem,hid,hd⟩|hdone
    · refine Or.inl ⟨_,List.mem_map_of_mem hmem,?_⟩
      split <;> exact ⟨hid,hd⟩
    · exact Or.inr (List.mem_cons_of_mem _ hdone)
  | finished done hdone hmark _ hscans hstoredBy _ =>
    rw [Known,hscans,hstoredBy]
    rcases h with ⟨scan,hmem,hid,hd⟩|hkept
    · by_cases he : scan.id=done.id
      · refine Or.inr ?_
        rw [←hid,he]
        exact hstored done hdone hmark
      · exact Or.inl ⟨scan,List.mem_filter.mpr ⟨hmem,decide_eq_true (Or.inl he)⟩,hid,hd⟩
    · exact Or.inr hkept

/-- Marks of stored results stay backed by results. -/
theorem stored_step {s : DeepApi} (h : ∀ scan∈s.scans, scan.stored=true → scan.id∈s.storedBy)
    (e : Event) : ∀ scan∈(step s e).scans, scan.stored=true → scan.id∈(step s e).storedBy := by
  intro scan hscan hmark
  cases change_step s e with
  | quiet _ hscans hstoredBy _ =>
    rw [hscans] at hscan
    rw [hstoredBy]
    exact h scan hscan hmark
  | started r _ hscans hstoredBy _ =>
    rw [hscans] at hscan
    rw [hstoredBy]
    rcases List.mem_append.mp hscan with hold|hnew
    · exact h scan hold hmark
    · rw [List.mem_singleton.mp hnew] at hmark
      cases hmark
  | stored id _ hscans hstoredBy _ =>
    rw [hscans] at hscan
    rw [hstoredBy]
    obtain ⟨old,hold,rfl⟩ := List.mem_map.mp hscan
    by_cases he : old.id=id
    · rw [if_pos he]
      exact List.mem_cons.mpr (Or.inl he)
    · rw [if_neg he] at hmark ⊢
      exact List.mem_cons_of_mem _ (h old hold hmark)
  | finished done _ _ _ hscans hstoredBy _ =>
    rw [hscans] at hscan
    rw [hstoredBy]
    exact h scan (List.mem_of_mem_filter hscan) hmark

/-- A lock that is there after a step was there before it, or is that of a new
scan of its domain. -/
theorem locked_step {s : DeepApi} (h : Accounted s) (e : Event) (domain : Text)
    {entry : Expiring DeepLock} (he : (step s e).locks.lookup domain=some entry) :
    Known (step s e) entry.value.scan domain := by
  have hkeep : s.locks.lookup domain=some entry → Known (step s e) entry.value.scan domain :=
    fun hl => known_step (h.locked domain entry hl) h.stored e
  cases change_step s e with
  | quiet hlocks _ _ _ => exact hkeep (hlocks ▸ he)
  | started r hlocks hscans _ _ =>
    rw [hlocks,setFor,lookup_insert_ite] at he
    split at he
    · rename_i hd
      refine Or.inl ⟨⟨s.nextScan,r.domain,false⟩,?_,?_,hd.symm⟩
      · rw [hscans]
        exact List.mem_append_right _ List.mem_cons_self
      · rw [←Option.some.inj he]
    · exact hkeep he
  | stored _ hlocks _ _ _ => exact hkeep (hlocks ▸ he)
  | finished done _ _ hlocks _ _ _ =>
    rw [hlocks,lookup_erase_ite] at he
    split at he
    · cases he
    · exact hkeep he

/-- A pledge of a step is an old one, or is made for the live lock that the
step has found, or for the scan that it has started. -/
theorem pledged_step {s : DeepApi} (h : Accounted s) (e : Event) :
    ∀ pledge∈(step s e).pledges, Known (step s e) pledge.scan pledge.domain := by
  have hkeep : ∀ pledge∈s.pledges, Known (step s e) pledge.scan pledge.domain :=
    fun pledge hp => known_step (h.pledged pledge hp) h.stored e
  intro pledge hp
  cases change_step s e with
  | quiet _ _ _ hpledges =>
    rcases hpledges pledge hp with hp|⟨r,lock,hl,rfl⟩
    · exact hkeep pledge hp
    · obtain ⟨entry,he,-,rfl⟩ := getLive_eq_some.mp hl
      exact known_step (h.locked r.domain entry he) h.stored e
  | started r _ hscans _ hpledges =>
    rw [hpledges] at hp
    rcases List.mem_append.mp hp with hp|hp
    · exact hkeep pledge hp
    · rw [List.mem_singleton.mp hp,Known,hscans]
      exact Or.inl ⟨⟨s.nextScan,r.domain,false⟩,List.mem_append_right _ List.mem_cons_self,
        rfl,rfl⟩
  | stored _ _ _ _ hpledges => exact hkeep pledge (hpledges ▸ hp)
  | finished done _ _ _ _ _ hpledges => exact hkeep pledge (hpledges ▸ hp)

/-- Steps keep locks and pledges accounted for. -/
theorem accounted_step {s : DeepApi} (h : Accounted s) (e : Event) : Accounted (step s e) where
  stored := stored_step h.stored e
  locked := fun domain _ he => locked_step h e domain he
  pledged := pledged_step h e

/-- Idle is told by a `deep_get` that misses the lock, and by nothing else. -/
theorem respond_idle {s : DeepApi} {e : Event} {client : ℕ} {domain : Text}
    (h : respond s e=some (client,.idle domain)) :
    ∃ i r, e=.getLock i ∧ s.gets[i]?=some r ∧ r.client=client ∧ r.domain=domain ∧
      liveLock s domain=none := by
  have hfirst : ∀ raw, firstAnswer s raw≠some (.idle domain) := by
    intro raw hf
    rw [firstAnswer] at hf
    split at hf
    · cases hf
    · obtain ⟨report,-,hreport⟩ := Option.map_eq_some_iff.mp hf
      cases hreport
  cases e with
  | getResult other raw =>
    obtain ⟨answer,ha,hpair⟩ := Option.map_eq_some_iff.mp h
    rw [(Prod.mk.inj hpair).2] at ha
    exact absurd ha (hfirst raw)
  | getLock i =>
    obtain ⟨r,hr,hpair⟩ := Option.map_eq_some_iff.mp h
    obtain ⟨hclient,hanswer⟩ := Prod.mk.inj hpair
    split at hanswer
    · cases hanswer
    · rename_i hfree
      have hd : r.domain=domain := DeepResponse.idle.inj hanswer
      rw [Option.not_isSome_iff_eq_none,hd] at hfree
      exact ⟨i,r,rfl,hr,hclient,hd,hfree⟩
  | postResult other raw =>
    obtain ⟨answer,ha,hpair⟩ := Option.map_eq_some_iff.mp h
    rw [(Prod.mk.inj hpair).2] at ha
    exact absurd ha (hfirst raw)
  | postClaim i =>
    obtain ⟨r,-,hpair⟩ := Option.map_eq_some_iff.mp h
    cases (Prod.mk.inj hpair).2
  | _ => cases h

/-- A waiting `deep_get` that no store has crossed would still find no result. -/
def Unread (s : DeepApi) : Prop := ∀ r∈s.gets, r.crossed=false → liveResult s r.domain=none

/-- Results are only lost by waiting. -/
theorem liveResult_tick {s : DeepApi} {domain : Text} (h : liveResult s domain=none)
    (seconds : ℕ) : liveResult {s with now := s.now+seconds} domain=none := by
  rw [Option.eq_none_iff_forall_ne_some] at h ⊢
  intro report hlive
  obtain ⟨entry,he,hd,hvalue⟩ := getLive_eq_some.mp hlive
  exact h report (getLive_eq_some.mpr ⟨entry,he,lt_of_le_of_lt (Nat.le_add_right _ _) hd,hvalue⟩)

/-- Steps keep it so: a store crosses the requests for its domain. -/
theorem unread_step {s : DeepApi} (h : Unread s) (e : Event) : Unread (step s e) := by
  cases e with
  | tick seconds => exact fun r hr hc => liveResult_tick (h r hr hc) seconds
  | getResult client raw =>
    intro r hr hc
    rcases List.mem_append.mp hr with hr|hr
    · exact h r hr hc
    · rw [waitingRequest] at hr
      split at hr
      · exact absurd hr List.not_mem_nil
      · obtain ⟨hnone,hr⟩ := List.mem_ite_nil_right.mp hr
        rw [List.mem_singleton.mp hr]
        exact Option.isNone_iff_eq_none.mp hnone
  | getLock i =>
    rw [step,getLockStep]
    split
    · exact h
    · exact fun r hr hc => h r (List.mem_of_mem_eraseIdx hr) hc
  | postResult client raw => exact h
  | postClaim i =>
    rw [step]
    rcases postClaimStep_cases s i with ⟨-,hs⟩|⟨r,-,⟨lock,-,hs⟩|⟨-,hs⟩⟩ <;> rw [hs] <;> exact h
  | store id outcome =>
    rw [step]
    rcases storeStep_cases s id outcome with hs|⟨scan,-,-,hs⟩ <;> rw [hs]
    · exact h
    · intro r hr hc
      obtain ⟨old,hold,rfl⟩ := List.mem_map.mp hr
      by_cases hd : old.domain=scan.domain
      · rw [DeepRequest.cross,if_pos hd] at hc
        cases hc
      · rw [DeepRequest.cross,if_neg hd] at hc ⊢
        have hother : (setFor s.results s.now (deepResult scan.domain outcome).2 scan.domain
            (deepResult scan.domain outcome).1).lookup old.domain=s.results.lookup old.domain :=
          (lookup_insert_ite ..).trans (if_neg hd)
        have hnone := h old hold hc
        rw [liveResult,getLive] at hnone ⊢
        rw [hother]
        exact hnone
  | finish id =>
    rw [step]
    rcases finishStep_cases s id with hs|⟨done,-,-,-,hs⟩ <;> rw [hs] <;> exact h
  | deleteResult domain =>
    intro r hr hc
    have hnone := h r hr hc
    rw [liveResult,getLive] at hnone ⊢
    change ((s.results.erase domain).lookup r.domain).bind _=none
    rw [lookup_erase_ite]
    split
    · rfl
    · exact hnone

/-- In such a state a timely answer is honest. -/
theorem honestIdle_of_timely {s : DeepApi} {e : Event} (h : Accounted s) (hunread : Unread s)
    (ht : Timely s e) : HonestIdle s e := by
  intro client domain hidle pledge hp hclient hdomain
  obtain ⟨i,r,rfl,hr,hrc,hrd,hfree⟩ := respond_idle hidle
  have hpending : WasPending s r := ⟨pledge,hp,hclient.trans hrc.symm,hdomain.trans hrd.symm⟩
  obtain ⟨houtlived,hovertaken⟩ := ht r hr hpending
  rw [Outlived,hrd] at houtlived
  have hcrossed : r.crossed=false :=
    Bool.eq_false_iff.mpr fun hc => hovertaken ⟨hc,hrd ▸ hfree⟩
  have hresult : liveResult s domain=none := hrd ▸ hunread r (List.mem_of_getElem? hr) hcrossed
  refine ⟨(h.pledged pledge hp).resolve_left fun hscan => ?_,hresult⟩
  obtain ⟨scan,hmem,-,hd⟩ := hscan
  have hflight : scan∈inFlight s domain :=
    List.mem_filter.mpr ⟨hmem,decide_eq_true (hd.trans hdomain)⟩
  exact houtlived ⟨List.ne_nil_of_mem hflight,hfree⟩

/-- At the start there are no locks and no pledges. -/
theorem accounted_init : Accounted DeepApi.init where
  stored := fun _ hscan => absurd hscan List.not_mem_nil
  locked := fun domain entry he => by
    rw [DeepApi.init,Finmap.lookup_empty] at he
    cases he
  pledged := fun _ hp => absurd hp List.not_mem_nil

/-- In a run in which no request meets a lock that its scan has outlived and no
scan overtakes a `deep_get`, at most one scan of a domain is in flight at any
moment, and who is told idle was told pending only for scans that have stored
their result, of which nothing is left. -/
theorem deepScans_exclusive (events : List Event) (h : Along step Timely DeepApi.init events) :
    (∀ first second, events=first++second → ∀ domain,
      (inFlight (run step DeepApi.init first) domain).length≤1) ∧
    ∀ first e second, events=first++e::second → HonestIdle (run step DeepApi.init first) e := by
  constructor
  · intro first second hevents domain
    rw [hevents,along_append] at h
    have hstep : ∀ s e, (∀ domain, Sole (viewOf s domain)) → Timely s e →
        ∀ domain, Sole (viewOf (step s e) domain) := fun _ _ => sole_step
    have hsole := h.1.invariant hstep (fun _ => Sole.free rfl) domain
    rw [←List.length_map (·.id)]
    exact hsole.atMostOne
  · intro first e second hevents
    rw [hevents,along_append,along_cons] at h
    have hstep : ∀ s e, Accounted s ∧ Unread s → Timely s e →
        Accounted (step s e) ∧ Unread (step s e) :=
      fun _ e hs _ => ⟨accounted_step hs.1 e,unread_step hs.2 e⟩
    have hknown := h.1.invariant hstep ⟨accounted_init,fun _ hr => absurd hr List.not_mem_nil⟩
    exact honestIdle_of_timely hknown.1 hknown.2 h.2.1

/-- A domain under deep scan. -/
def payTop : Text := "pay.top".toList

/-- Two starts of a scan, the second one after the lock of the first has
expired. -/
def slowScan : List Event :=
  [.postResult 0 payTop,.postClaim 0,.tick 91,.postResult 1 payTop,.postClaim 0]

/-- A scan that stores its result and deletes its lock between the two reads
of a client that was told to wait. -/
def fastScan : List Event :=
  [.postResult 0 payTop,.postClaim 0,.getResult 0 payTop,.store 0 (.report "{}".toList),.finish 0]

/-- A slow scan is joined by a second one, and after a fast one a client that
was told to wait is told that nothing is going on, with the result stored. -/
theorem slow_and_fast_fail :
    ¬(inFlight (run step DeepApi.init slowScan) payTop).length≤1 ∧
    ¬HonestIdle (run step DeepApi.init fastScan) (.getLock 0) := by
  refine ⟨by decide +kernel,fun h => ?_⟩
  have hidle : respond (run step DeepApi.init fastScan) (.getLock 0)=some (0,.idle payTop) := by
    decide +kernel
  have hpledge : (⟨0,payTop,0⟩ : Pledge)∈(run step DeepApi.init fastScan).pledges := by
    decide +kernel
  have hgone := (h 0 payTop hidle ⟨0,payTop,0⟩ hpledge rfl rfl).2
  have hstored : liveResult (run step DeepApi.init fastScan) payTop=
      some (.scanned "{}".toList) := by decide +kernel
  rw [hstored] at hgone
  cases hgone

/-- A run in which a client is told to wait, polls, and is told idle when the
result has expired. -/
def polled : List Event :=
  [.postResult 0 payTop,.postClaim 0,.getResult 0 payTop,.getLock 0,.store 0 (.refused 500),
    .finish 0,.tick 300,.getResult 0 payTop,.getLock 0]

theorem polled_exclusive :
    (∀ first second, polled=first++second → ∀ domain,
      (inFlight (run step DeepApi.init first) domain).length≤1) ∧
    ∀ first e second, polled=first++e::second → HonestIdle (run step DeepApi.init first) e :=
  deepScans_exclusive polled (by decide +kernel)

end ScamLens.DeepScans
