import ScamLens.BlockRequests

/-!
# Domains an admin has unblocked

Removing a domain from the blocklist deletes its seed row, clears its verdict
row and drops its cached verdict. What it leaves behind are confirmed reports,
which the blocklist query still picks up, tasks that block the domain once
more when they run, and the typosquat detector. In runs without these three
the domain is not blocked again.
-/

namespace ScamLens.UnblockRequests

open Answers BlockRequests DomainEntries EventRuns PlainMessages PythonText Resolver ServiceFrames
  Services TableFrames Tables Upstream VerdictCache VerdictStore

/-- No scan result, report confirmation, scraper or admin command names the domain. -/
def Unwritten (d : Text) (s : Deployment) : Event → Prop
  | .scanner (.saveCache domain _) => domain≠d
  | .scanner (.saveRow domain _) => domain≠d
  | .scanner (.savePromote domain _) => domain≠d
  | .scanner (.saveError domain _) => domain≠d
  | .admin (.addBlocklist raw reason) => domainEntry raw reason≠some d
  | .admin (.confirmReport id) => ∀ row, s.db.userReports.lookup id=some row → row.domain≠d
  | .scraper domain _ _ => domain≠d
  | _ => True

section Invariants

variable {dns : Dnslib} {cfg : Config} {s : Deployment} {d : Text} {e : Event}

/-- Such an event inserts no seed row of the domain. -/
theorem Unwritten.not_insertsSeed (hw : Unwritten d s e) (hl : ¬RunsLateBlock s d e) :
    ¬InsertsSeed s d e := by
  intro h
  rcases insertsSeed_cases h with ⟨i,ip,category,rfl,ht⟩|⟨v,rfl⟩|⟨raw,reason,rfl,hentry⟩|
    ⟨id,row,rfl,hrow,hd⟩|⟨post,platform,rfl⟩
  · exact hl ⟨_,ht,rfl⟩
  · exact hw rfl
  · exact hw hentry
  · exact hw row hrow hd
  · exact hw rfl

/-- Such an event writes nothing but a pending marker under the domain. -/
theorem Unwritten.pending_of_writes (hw : Unwritten d s e) (hl : ¬RunsLateBlock s d e)
    {entry : ExpiringStores.Expiring CachedJson} (h : WritesEntry cfg s d entry e) :
    entry.value=pendingPayload := by
  rcases writesEntry_cases h with ⟨i,ip,v,ttl,rfl,ht,-⟩|⟨i,ip,rfl,-,he⟩|⟨v,rfl,-⟩|⟨reason,rfl,-⟩
  · exact absurd ⟨_,ht,rfl⟩ hl
  · rw [he]
  · exact absurd rfl hw
  · exact absurd rfl hw

/-- The domain has neither a seed row nor a confirmed report. -/
structure Unlisted (d : Text) (s : Deployment) : Prop where
  /-- No seed row. -/
  seed : d∉s.db.blocklistSeed
  /-- No confirmed report. -/
  report : ¬s.db.HasConfirmedReport d

/-- No row of the database blocks the domain. -/
structure Unrated (d : Text) (s : Deployment) : Prop extends Unlisted d s where
  /-- No blocking verdict row. -/
  row : ¬s.db.HasBlockingRow d

/-- Nothing is cached about the domain but the marker of a scan under way. -/
structure Forgotten (d : Text) (s : Deployment) : Prop extends Unrated d s where
  /-- Only a pending marker. -/
  entry : ∀ entry, s.redis.verdicts.lookup d=some entry → entry.value=pendingPayload

/-- The blocklist in memory does not hold the domain either. -/
structure Released (d : Text) (s : Deployment) : Prop extends Forgotten d s where
  /-- Not on the blocklist in memory. -/
  blocklist : d∉s.lists.blocklist

variable (dns cfg s e)

theorem unlisted_step (h : Unlisted d s) (he : Unwritten d s e ∧ ¬RunsLateBlock s d e) :
    Unlisted d (step dns cfg s e) := by
  refine ⟨fun hm => ?_,fun hr => ?_⟩
  · rcases (mem_seed_step e).mp hm with hold|hnew
    · exact h.seed hold.1
    · exact he.1.not_insertsSeed he.2 hnew
  · rcases hasConfirmedReport_step hr with hold|⟨id,row,rfl,hrow,hd⟩
    · exact h.report hold
    · exact he.1 row hrow hd

theorem unrated_step (h : Unrated d s) (he : Unwritten d s e ∧ ¬RunsLateBlock s d e) :
    Unrated d (step dns cfg s e) := by
  refine ⟨unlisted_step dns cfg s e h.toUnlisted he,fun hr => ?_⟩
  rcases hasBlockingRow_step hr with hold|⟨v,rfl⟩
  · exact h.row hold
  · exact he.1 rfl

theorem forgotten_step (h : Forgotten d s) (he : Unwritten d s e ∧ ¬RunsLateBlock s d e) :
    Forgotten d (step dns cfg s e) := by
  refine ⟨unrated_step dns cfg s e h.toUnrated he,fun entry hentry => ?_⟩
  rcases lookup_verdicts_step hentry with hold|hnew
  · exact h.entry entry hold
  · exact he.1.pending_of_writes he.2 hnew

theorem released_step (h : Released d s) (he : Unwritten d s e ∧ ¬RunsLateBlock s d e) :
    Released d (step dns cfg s e) := by
  refine ⟨forgotten_step dns cfg s e h.toForgotten he,fun hm => ?_⟩
  obtain hb|hb := step_blocklist dns cfg s e
  · rw [hb] at hm
    exact h.blocklist hm
  · rw [hb,Database.mem_selectBlocklist] at hm
    exact hm.elim h.seed fun hm => hm.elim h.row h.report

variable {dns cfg s}

/-- Deleting the seed row unlists a domain without confirmed reports. -/
theorem unlisted_deleteSeed {raw : Text} (h : ¬s.db.HasConfirmedReport (pathDomain raw)) :
    Unlisted (pathDomain raw) (step dns cfg s (.admin (.deleteSeed raw))) := by
  refine ⟨fun hm => ?_,h⟩
  rcases (mem_seed_step _).mp hm with hold|hnew
  · exact hold.2 rfl
  · exact hnew

/-- Down-classifying the verdict row leaves no row that blocks the domain. -/
theorem Unlisted.downclassify {raw : Text} (h : Unlisted (pathDomain raw) s) :
    Unrated (pathDomain raw) (step dns cfg s (.admin (.downclassify raw))) :=
  ⟨⟨h.seed,h.report⟩,not_hasBlockingRow_downclassify raw⟩

/-- The DEL of the endpoint leaves nothing cached about the domain. -/
theorem Unrated.clearCaches (h : Unrated d s) :
    Forgotten d (step dns cfg s (.admin (.clearCaches d))) := by
  refine ⟨⟨⟨h.seed,h.report⟩,h.row⟩,fun entry hentry => ?_⟩
  rw [lookup_verdicts_clearCaches] at hentry
  cases hentry

/-- A refresh of the blocklist releases a domain that no row blocks. -/
theorem Forgotten.refresh (h : Forgotten d s) :
    Released d (step dns cfg s (.refresh (.blocklist true))) := by
  refine ⟨⟨⟨⟨h.seed,h.report⟩,h.row⟩,h.entry⟩,fun hm => ?_⟩
  exact (s.db.mem_selectBlocklist.mp hm).elim h.seed fun hm => hm.elim h.row h.report

/-- A released domain is not blocked as long as no parent and no brand blocks it. -/
theorem Released.neverBlocks (h : Released d s)
    (hparents : ∀ m∈parentChain d, m≠d → m∉s.lists.blocklist ∧
      ∀ data, liveEntry s m=some data → ∀ kind, data.verdict=some kind → kind.isBlocking=false)
    (hsquat : Typosquat.check s.lists.typosquat d=none) : NeverBlocks dns cfg s d := by
  intro wire request clientIp userId net up hparse hname out hout
  have hs : ¬(ResolverPolicy.policyOf s.lists (cacheReads s up)).Sinkholes d := by
    refine not_sinkholes_of_clear (fun m hm hb => ?_) (fun m hm data hdata kind hkind => ?_) hsquat
    · by_cases he : m=d
      · rw [he] at hb
        exact h.blocklist hb
      · exact (hparents m hm he).1 hb
    · by_cases he : m=d
      · rw [he] at hdata
        obtain ⟨entry,hentry,-,hvalue⟩ := ExpiringStores.getLive_eq_some.mp hdata
        rw [←hvalue,h.entry entry hentry] at hkind
        rw [←Option.some.inj hkind]
        rfl
      · exact (hparents m hm he).2 data hdata kind hkind
  rw [resolve_of_not_sinkholes hs hparse hname hout]
  exact forward_blocked dns net request d

variable (dns cfg s)

/-- After `remove_blocklist` and a refresh, the domain is not blocked, provided
that no report about it is confirmed, that no task left over from a query
promotes it or caches a verdict for it after the removal has started, and that
no brand resembles it. -/
theorem removeBlocklist_unblocks (raw : Text)
    (hreport : ¬s.db.HasConfirmedReport (pathDomain raw))
    {first second third fourth : List Event}
    (hrun : Along (step dns cfg)
      (fun s e => Unwritten (pathDomain raw) s e ∧ ¬RunsLateBlock s (pathDomain raw) e) s
      (.admin (.deleteSeed raw)::(first++.admin (.downclassify raw)::
        (second++.admin (.clearCaches (pathDomain raw))::
          (third++.refresh (.blocklist true)::fourth)))))
    {t : Deployment} (ht : t=run (step dns cfg) s
      (.admin (.deleteSeed raw)::(first++.admin (.downclassify raw)::
        (second++.admin (.clearCaches (pathDomain raw))::
          (third++.refresh (.blocklist true)::fourth)))))
    (hparents : ∀ m∈parentChain (pathDomain raw), m≠pathDomain raw → m∉t.lists.blocklist ∧
      ∀ data, liveEntry t m=some data → ∀ kind, data.verdict=some kind → kind.isBlocking=false)
    (hsquat : Typosquat.check t.lists.typosquat (pathDomain raw)=none) :
    NeverBlocks dns cfg t (pathDomain raw) := by
  simp only [along_cons,along_append,run_cons,run_append] at hrun ht
  obtain ⟨-,hfirst,-,hsecond,-,hthird,-,hfourth⟩ := hrun
  have hunlisted := hfirst.invariant (fun s e => unlisted_step dns cfg s e)
    (unlisted_deleteSeed hreport)
  have hunrated := hsecond.invariant (fun s e => unrated_step dns cfg s e) hunlisted.downclassify
  have hforgotten := hthird.invariant (fun s e => forgotten_step dns cfg s e) hunrated.clearCaches
  have hreleased := hfourth.invariant (fun s e => released_step dns cfg s e) hforgotten.refresh
  rw [←ht] at hreleased
  exact hreleased.neverBlocks hparents hsquat

end Invariants

section Examples

/-- The requests and the refresh of one removal. -/
def unblockEvents (d : HostName) : List Event :=
  [.admin (.deleteSeed d.name),.admin (.downclassify d.name),.admin (.clearCaches d.name),
    .refresh (.blocklist true)]

/-- A second-level domain that an admin has blocked and unblocked again. -/
def unblockedBadTk : Deployment :=
  run (step plainDns defaultConfig)
    (run (step plainDns defaultConfig) Deployment.init (blockEvents badTk)) (unblockEvents badTk)

/-- A domain that only an admin has blocked is released by its removal. -/
theorem removeBlocklist_unblocks_badTk :
    NeverBlocks plainDns defaultConfig unblockedBadTk (pathDomain badTk.name) := by
  have hreport : ¬(run (step plainDns defaultConfig) Deployment.init
      (blockEvents badTk)).db.HasConfirmedReport (pathDomain badTk.name) := by
    intro h
    obtain ⟨id,row,hrow,-⟩ := h
    cases hrow
  have hrun : Along (step plainDns defaultConfig)
      (fun s e => Unwritten (pathDomain badTk.name) s e ∧
        ¬RunsLateBlock s (pathDomain badTk.name) e)
      (run (step plainDns defaultConfig) Deployment.init (blockEvents badTk))
      (.admin (.deleteSeed badTk.name)::([]++.admin (.downclassify badTk.name)::
        ([]++.admin (.clearCaches (pathDomain badTk.name))::
          ([]++.refresh (.blocklist true)::[])))) :=
    ⟨⟨trivial,not_false⟩,⟨trivial,not_false⟩,⟨trivial,not_false⟩,⟨trivial,not_false⟩,trivial⟩
  have halone : ∀ m∈parentChain (pathDomain badTk.name), m=pathDomain badTk.name := by decide
  exact removeBlocklist_unblocks plainDns defaultConfig _ badTk.name hreport hrun rfl
    (fun m hm hne => absurd (halone m hm) hne) (by decide)

/-- A domain that was reported, confirmed, and removed from the blocklist. -/
def removedAfterReport : Deployment :=
  run (step plainDns defaultConfig) Deployment.init
    (.report badTk.name none "192.0.2.1".toList::.admin (.confirmReport 1)::
      (unblockEvents badTk++[.refresh (.whitelist true)]))

/-- After a confirmed report the removal does not unblock the domain. -/
theorem removeBlocklist_blocked_after_report :
    ¬NeverBlocks plainDns defaultConfig removedAfterReport badTk.name := by
  intro h
  have hblocks : BlocksQueries plainDns defaultConfig removedAfterReport badTk.name :=
    blocksQueries_of_blocklisted (by decide) (by decide) ⟨badTk.name,by decide,by decide⟩
  have hparse : plainDns.parse (aQuery badTk.name)=some (aQuestion badTk.name) := by decide
  obtain ⟨out,hout,hblocked,-⟩ := hblocks (aQuery badTk.name) (aQuestion badTk.name) none none
    (fun _ => ⟨.timeout,.timeout⟩) (fun _ => true) hparse (by decide)
  rw [h _ _ none none _ _ hparse (by decide) out hout] at hblocked
  cases hblocked

end Examples

end ScamLens.UnblockRequests
