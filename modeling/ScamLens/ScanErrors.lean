import ScamLens.BlockRequests

/-!
# Markers of failed scans

A failed scan leaves a suspicious marker that expires, but a query that is
sinkholed for such a marker promotes its name to the blocklist, where nothing
expires. So a marker is temporary in the runs in which no query for a member of
the chain reads one.
-/

namespace ScamLens.ScanErrors

open Answers BlockRequests DomainEntries EventRuns ExpiringStores PlainMessages PythonText Resolver
  ServiceFrames Services TableFrames Tables Typosquat Upstream VerdictCache VerdictStore

/-- Scans of chain members save no verdict, and no report confirmation,
scraper or admin command names a chain member; no brand resembles one. -/
def ErrorsOnly (d : Text) (s : Deployment) (e : Event) : Prop :=
  (match e with
    | .scanner (.saveCache domain _) => domain∉parentChain d
    | .scanner (.saveRow domain _) => domain∉parentChain d
    | .scanner (.savePromote domain _) => domain∉parentChain d
    | .admin (.addBlocklist raw reason) => ∀ c∈parentChain d, domainEntry raw reason≠some c
    | .admin (.confirmReport id) =>
      ∀ row, s.db.userReports.lookup id=some row → row.domain∉parentChain d
    | .scraper domain _ _ => domain∉parentChain d
    | _ => True) ∧
  ∀ c∈parentChain d, check s.lists.typosquat c=none

/-- No query for a chain member reads a live marker of a failed scan. -/
def Unasked (d : Text) (s : Deployment) (e : Event) : Prop :=
  ∀ c∈parentChain d, ¬ReadsBlocking s c e

/-- The event saves no error marker for a chain member. -/
def NoError (d : Text) : Event → Prop
  | .scanner (.saveError domain _) => domain∉parentChain d
  | _ => True

/-- Nothing blocks a chain member but markers of failed scans that are gone
after the given second. -/
structure CleanUntil (limit : ℕ) (d : Text) (s : Deployment) : Prop where
  /-- No seed rows. -/
  seed : ∀ c∈parentChain d, c∉s.db.blocklistSeed
  /-- No blocking verdict rows. -/
  row : ∀ c∈parentChain d, ¬s.db.HasBlockingRow c
  /-- No confirmed reports. -/
  report : ∀ c∈parentChain d, ¬s.db.HasConfirmedReport c
  /-- Not on the blocklist in memory. -/
  blocklist : ∀ c∈parentChain d, c∉s.lists.blocklist
  /-- No task that blocks a member later. -/
  task : ∀ c∈parentChain d, ∀ task∈s.tasks, ¬BlocksLater c task
  /-- Nothing cached but pending markers and error markers. -/
  entry : ∀ c∈parentChain d, ∀ entry, s.redis.verdicts.lookup c=some entry →
    entry.value=pendingPayload ∨ ∃ reason, entry.value=errorPayload reason ∧ entry.deadline≤limit

section Invariants

variable {dns : Dnslib} {cfg : Config} {s : Deployment} {d : Text} {e : Event} {limit : ℕ}

theorem CleanUntil.mono (h : CleanUntil limit d s) {later : ℕ} (hl : limit≤later) :
    CleanUntil later d s := by
  refine ⟨h.seed,h.row,h.report,h.blocklist,h.task,fun c hc entry hentry => ?_⟩
  rcases h.entry c hc entry hentry with hp|⟨reason,hv,hd⟩
  · exact Or.inl hp
  · exact Or.inr ⟨reason,hv,hd.trans hl⟩

/-- A deployment that has just started is clean. -/
theorem cleanUntil_init : CleanUntil limit d Deployment.init := by
  refine ⟨fun c _ => Finmap.notMem_empty,fun c _ h => ?_,fun c _ h => ?_,
    fun c _ => Finset.notMem_empty c,fun c _ task ht => absurd ht List.not_mem_nil,
    fun c _ entry h => by cases h⟩
  · obtain ⟨row,hrow,-⟩ := h
    cases hrow
  · obtain ⟨id,row,hrow,-⟩ := h
    cases hrow

/-- Such an event inserts no seed row of a chain member. -/
theorem ErrorsOnly.not_insertsSeed (h : CleanUntil limit d s) (he : ErrorsOnly d s e) {c : Text}
    (hc : c∈parentChain d) : ¬InsertsSeed s c e := by
  intro hi
  rcases insertsSeed_cases hi with ⟨i,ip,category,rfl,ht⟩|⟨v,rfl⟩|⟨raw,reason,rfl,hentry⟩|
    ⟨id,row,rfl,hrow,hd⟩|⟨post,platform,rfl⟩
  · exact h.task c hc _ (List.mem_of_getElem? ht) rfl
  · exact he.1 hc
  · exact he.1 c hc hentry
  · exact he.1 row hrow (hd ▸ hc)
  · exact he.1 hc

/-- What such an event caches for a chain member is a pending marker or an
error marker. -/
theorem ErrorsOnly.entry (h : CleanUntil limit d s) (he : ErrorsOnly d s e)
    (hlimit : ¬NoError d e → s.now+cfg.unknownTtl≤limit) {c : Text} (hc : c∈parentChain d)
    {entry : Expiring CachedJson} (hw : WritesEntry cfg s c entry e) :
    entry.value=pendingPayload ∨
      ∃ reason, entry.value=errorPayload reason ∧ entry.deadline≤limit := by
  rcases writesEntry_cases hw with ⟨i,ip,v,ttl,rfl,ht,-⟩|⟨i,ip,rfl,-,hv⟩|⟨v,rfl,-⟩|⟨reason,rfl,hv⟩
  · exact absurd rfl (h.task c hc _ (List.mem_of_getElem? ht))
  · rw [hv]
    exact Or.inl rfl
  · exact absurd hc he.1
  · rw [hv]
    exact Or.inr ⟨reason,rfl,hlimit fun hn => hn hc⟩

/-- Such an event keeps the chain clean, unless a query for a chain member
reads a marker. -/
theorem cleanUntil_step (dns : Dnslib) (h : CleanUntil limit d s) (he : ErrorsOnly d s e)
    (hu : Unasked d s e) (hlimit : ¬NoError d e → s.now+cfg.unknownTtl≤limit) :
    CleanUntil limit d (step dns cfg s e) := by
  refine ⟨fun c hc hm => ?_,fun c hc hr => ?_,fun c hc hr => ?_,fun c hc hm => ?_,
    fun c hc task ht hb => ?_,fun c hc entry hentry => ?_⟩
  · rcases (mem_seed_step e).mp hm with hold|hnew
    · exact h.seed c hc hold.1
    · exact he.not_insertsSeed h hc hnew
  · rcases hasBlockingRow_step hr with hold|⟨v,rfl⟩
    · exact h.row c hc hold
    · exact he.1 hc
  · rcases hasConfirmedReport_step hr with hold|⟨id,row,rfl,hrow,hd⟩
    · exact h.report c hc hold
    · exact he.1 row hrow (hd ▸ hc)
  · obtain hb|hb := step_blocklist dns cfg s e
    · rw [hb] at hm
      exact h.blocklist c hc hm
    · rw [hb,Database.mem_selectBlocklist] at hm
      exact hm.elim (h.seed c hc) fun hm => hm.elim (h.row c hc) (h.report c hc)
  · rcases blocksLater_step hb ht with hold|hsquat|hread
    · exact h.task c hc task hold hb
    · rw [he.2 c hc] at hsquat
      cases hsquat
    · exact hu c hc hread
  · rcases lookup_verdicts_step hentry with hold|hnew
    · exact h.entry c hc entry hold
    · exact he.entry h hlimit hc hnew

/-- Along a run, the markers are gone one marker lifetime after its end. -/
theorem cleanUntil_run (h : CleanUntil (s.now+cfg.unknownTtl) d s) {events : List Event}
    (hrun : Along (step dns cfg) (fun s e => ErrorsOnly d s e ∧ Unasked d s e) s events) :
    CleanUntil ((run (step dns cfg) s events).now+cfg.unknownTtl) d
      (run (step dns cfg) s events) := by
  have hstep : ∀ s e, CleanUntil (s.now+cfg.unknownTtl) d s → ErrorsOnly d s e ∧ Unasked d s e →
      CleanUntil ((step dns cfg s e).now+cfg.unknownTtl) d (step dns cfg s e) := by
    intro s e hs he
    have hnext := cleanUntil_step dns hs he.1 he.2 fun _ => le_rfl
    exact hnext.mono (Nat.add_le_add_right (step_now dns cfg s e) _)
  exact hrun.invariant hstep h

/-- Along a run that saves no further marker, the time at which they are gone
stays. -/
theorem cleanUntil_run_quiet (h : CleanUntil limit d s) {events : List Event}
    (hrun : Along (step dns cfg) (fun s e => ErrorsOnly d s e ∧ Unasked d s e) s events)
    (hquiet : ∀ e∈events, NoError d e) : CleanUntil limit d (run (step dns cfg) s events) := by
  induction events generalizing s with
  | nil => exact h
  | cons e events ih =>
    obtain ⟨he,hrest⟩ := hrun
    obtain ⟨hnone,hlater⟩ := List.forall_mem_cons.mp hquiet
    have hnext : CleanUntil limit d (step dns cfg s e) :=
      cleanUntil_step dns h he.1 he.2 fun hn => absurd hnone hn
    exact ih hnext hrest hlater

/-- A clean chain whose error markers are gone is forwarded. -/
theorem CleanUntil.forwards (h : CleanUntil limit d s) (hlimit : limit ≤ s.now)
    (hsquat : check s.lists.typosquat d=none) : ForwardsQueries dns cfg s d := by
  refine forwardsQueries_of_clear h.blocklist (fun m hm data hdata => ?_) hsquat
  obtain ⟨entry,hentry,hlive,hvalue⟩ := getLive_eq_some.mp hdata
  rcases h.entry m hm entry hentry with hpending|⟨reason,-,hdeadline⟩
  · rw [←hvalue,hpending]
    exact ⟨.pending,rfl,rfl⟩
  · omega

/-- Error markers are temporary: once their lifetime has passed since the last
one, queries for the domain are forwarded, provided that no query for a member
of its chain has read a marker. -/
theorem saveError_expires (h : CleanUntil (s.now+cfg.unknownTtl) d s) {first second : List Event}
    (hrun : Along (step dns cfg) (fun s e => ErrorsOnly d s e ∧ Unasked d s e) s (first++second))
    (hquiet : ∀ e∈second, NoError d e) {last t : Deployment}
    (hlast : last=run (step dns cfg) s first) (ht : t=run (step dns cfg) last second)
    (helapsed : last.now+cfg.unknownTtl≤t.now) (hsquat : check t.lists.typosquat d=none) :
    ForwardsQueries dns cfg t d := by
  obtain ⟨hfirst,hsecond⟩ := (along_append s first second).mp hrun
  have hmarked := cleanUntil_run h hfirst
  rw [←hlast] at hmarked hsecond
  have hexpired := cleanUntil_run_quiet hmarked hsecond hquiet
  rw [←ht] at hexpired
  exact hexpired.forwards helapsed hsquat

end Invariants

section Examples

/-- A query for a domain alone, with the one read of its chain. -/
def askEvents (d : HostName) : List Event :=
  [.resolver (.query (aQuery d.name) none none fun _ => ⟨.timeout,.timeout⟩),
    .resolver (.read 0 true fun _ => ⟨.timeout,.timeout⟩)]

/-- A first query has a domain scanned, and the scan fails. -/
def failedScanEvents (d : HostName) : List Event :=
  askEvents d++[.resolver (.runTask 0 true none),.resolver (.runTask 0 true none),
    .resolver (.runTask 0 true none),.scanner .pop,.scanner (.saveError d.name "fetch".toList)]

/-- Time passes until the marker is gone. -/
def waitEvents : List Event := [.tick defaultConfig.unknownTtl]

/-- A failed scan alone blocks nothing for longer than its marker lives. -/
theorem saveError_expires_badTk :
    ForwardsQueries plainDns defaultConfig
      (run (step plainDns defaultConfig)
        (run (step plainDns defaultConfig) Deployment.init (failedScanEvents badTk)) waitEvents)
      badTk.name := by
  have hunread : Unasked badTk.name (step plainDns defaultConfig Deployment.init
      (.resolver (.query (aQuery badTk.name) none none fun _ => ⟨.timeout,.timeout⟩)))
      (.resolver (.read 0 true fun _ => ⟨.timeout,.timeout⟩)) := by
    intro c hc h
    obtain ⟨w,candidate,candidates,v,-,-,-,hv,-⟩ := h
    rw [(step_query_same _ _ _ _).2.2.1] at hv
    cases hv
  have hrun : Along (step plainDns defaultConfig)
      (fun s e => ErrorsOnly badTk.name s e ∧ Unasked badTk.name s e) Deployment.init
      (failedScanEvents badTk++waitEvents) :=
    ⟨⟨⟨trivial,by decide +kernel⟩,fun _ _ => not_false⟩,⟨⟨trivial,by decide +kernel⟩,hunread⟩,
      ⟨⟨trivial,by decide +kernel⟩,fun _ _ => not_false⟩,
      ⟨⟨trivial,by decide +kernel⟩,fun _ _ => not_false⟩,
      ⟨⟨trivial,by decide +kernel⟩,fun _ _ => not_false⟩,
      ⟨⟨trivial,by decide +kernel⟩,fun _ _ => not_false⟩,
      ⟨⟨trivial,by decide +kernel⟩,fun _ _ => not_false⟩,
      ⟨⟨trivial,by decide +kernel⟩,fun _ _ => not_false⟩,trivial⟩
  have hquiet : ∀ e∈waitEvents, NoError badTk.name e := by
    intro e he
    rw [List.mem_singleton.mp he]
    exact trivial
  exact saveError_expires cleanUntil_init hrun hquiet rfl rfl (by decide +kernel)
    (by decide +kernel)

/-- The same with a second query while the marker lives, whose tasks run, and
a refresh of the lists. -/
def promotedFromMarker : Deployment :=
  run (step plainDns defaultConfig) Deployment.init
    (failedScanEvents badTk++askEvents badTk++[.resolver (.runTask 1 true none),
      .refresh (.blocklist true),.refresh (.whitelist true)]++waitEvents)

/-- A query that reads the marker makes the block permanent. -/
theorem saveError_blocks_promoted :
    ¬ForwardsQueries plainDns defaultConfig promotedFromMarker badTk.name := by
  have hblocks : BlocksQueries plainDns defaultConfig promotedFromMarker badTk.name :=
    blocksQueries_of_blocklisted (by decide +kernel) (by decide +kernel)
      ⟨badTk.name,by decide +kernel,by decide +kernel⟩
  have hparse : plainDns.parse (aQuery badTk.name)=some (aQuestion badTk.name) := by decide
  exact hblocks.not_forwardsQueries hparse (by decide)

end Examples

end ScamLens.ScanErrors
