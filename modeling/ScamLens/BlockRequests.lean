import ScamLens.Answers
import ScamLens.PlainMessages

/-!
# Domains an admin has blocked

Adding a domain to the blocklist works on exact rows, while the resolver looks
along the parent chain, whitelist first. So the block takes effect after the
next refresh for every domain that has no bypass suffix and no whitelisted
parent, and it lasts until another write to the list tables.
-/

namespace ScamLens.BlockRequests

open Answers DomainEntries EventRuns PlainMessages PythonText Resolver ServiceFrames Services
  TableFrames Tables Upstream

/-- Commands of the admin endpoints and of the import. -/
def isListWrite : Event → Bool
  | .admin _ => true
  | .tranco _ => true
  | _ => false

section Invariants

variable {dns : Dnslib} {cfg : Config} {s : Deployment} {d : Text}

/-- The domain has a seed row and no member of its chain is whitelisted. -/
structure Listed (s : Deployment) (d : Text) : Prop where
  /-- The seed row. -/
  seed : d∈s.db.blocklistSeed
  /-- No whitelist row on the chain. -/
  whitelist : ∀ m∈parentChain d, m∉s.db.whitelist

/-- The DNS server has read the seed row. -/
structure Loaded (s : Deployment) (d : Text) : Prop extends Listed s d where
  /-- The domain is on the blocklist in memory. -/
  blocklist : d∈s.lists.blocklist

/-- The DNS server has read both tables. -/
structure Enforced (s : Deployment) (d : Text) : Prop extends Loaded s d where
  /-- No chain member is on the whitelist in memory. -/
  exempt : ∀ m∈parentChain d, m∉s.lists.whitelist

theorem listed_step (dns : Dnslib) (cfg : Config) (s : Deployment) (e : Event) (h : Listed s d)
    (he : isListWrite e=false) :
    Listed (step dns cfg s e) d := by
  refine ⟨mem_seed_step e |>.mpr (Or.inl ⟨h.seed,?_⟩),fun m hm hw => ?_⟩
  · cases e with
    | admin e => cases he
    | _ => exact not_false
  · rcases (mem_whitelist_step e).mp hw with hold|hnew
    · exact h.whitelist m hm hold.1
    · cases e with
      | admin e => cases he
      | tranco e => cases he
      | _ => exact hnew

theorem loaded_step (dns : Dnslib) (cfg : Config) (s : Deployment) (e : Event) (h : Loaded s d)
    (he : isListWrite e=false) :
    Loaded (step dns cfg s e) d := by
  refine ⟨listed_step dns cfg s e h.toListed he,?_⟩
  obtain hb|hb := step_blocklist dns cfg s e
  · rw [hb]
    exact h.blocklist
  · rw [hb]
    exact s.db.mem_selectBlocklist.mpr (Or.inl h.seed)

theorem enforced_step (dns : Dnslib) (cfg : Config) (s : Deployment) (e : Event) (h : Enforced s d)
    (he : isListWrite e=false) :
    Enforced (step dns cfg s e) d := by
  refine ⟨loaded_step dns cfg s e h.toLoaded he,fun m hm hw => ?_⟩
  obtain hl|hl|⟨-,hl⟩ := step_whitelist_lists dns cfg s e
  · rw [hl] at hw
    exact h.exempt m hm hw
  · rw [hl] at hw
    exact h.whitelist m hm (s.db.mem_selectWhitelist.mp hw)
  · rw [hl] at hw
    exact absurd hw (Finset.notMem_empty m)

/-- The invariants hold along every run without list writes. -/
theorem listed_run (dns : Dnslib) (cfg : Config) {events : List Event} (h : Listed s d)
    (hquiet : ∀ e∈events, isListWrite e=false) : Listed (run (step dns cfg) s events) d :=
  run_invariant (Listed · d) (listed_step dns cfg) h hquiet

theorem loaded_run (dns : Dnslib) (cfg : Config) {events : List Event} (h : Loaded s d)
    (hquiet : ∀ e∈events, isListWrite e=false) : Loaded (run (step dns cfg) s events) d :=
  run_invariant (Loaded · d) (loaded_step dns cfg) h hquiet

theorem enforced_run (dns : Dnslib) (cfg : Config) {events : List Event} (h : Enforced s d)
    (hquiet : ∀ e∈events, isListWrite e=false) : Enforced (run (step dns cfg) s events) d :=
  run_invariant (Enforced · d) (enforced_step dns cfg) h hquiet

/-- The DEL of the endpoint touches no table. -/
theorem Listed.clearCaches (h : Listed s d) (dns : Dnslib) (cfg : Config) (domain : Text) :
    Listed (step dns cfg s (.admin (.clearCaches domain))) d := ⟨h.seed,h.whitelist⟩

/-- A successful refresh of the blocklist loads a listed domain. -/
theorem Listed.refresh (h : Listed s d) (dns : Dnslib) (cfg : Config) :
    Loaded (step dns cfg s (.refresh (.blocklist true))) d :=
  ⟨⟨h.seed,h.whitelist⟩,s.db.mem_selectBlocklist.mpr (Or.inl h.seed)⟩

/-- A successful refresh of the whitelist enforces a loaded domain. -/
theorem Loaded.refresh (h : Loaded s d) (dns : Dnslib) (cfg : Config) :
    Enforced (step dns cfg s (.refresh (.whitelist true))) d :=
  ⟨⟨⟨h.seed,h.whitelist⟩,h.blocklist⟩,
    fun m hm hw => h.whitelist m hm (s.db.mem_selectWhitelist.mp hw)⟩

/-- The transaction of `add_blocklist` lists a domain none of whose parents is
whitelisted. -/
theorem listed_addBlocklist (d : HostName) {reason : Option Text} (hreason : noteOk reason=true)
    (hparents : ∀ m∈parentChain d.name, m≠d.name → m∉s.db.whitelist) :
    Listed (step dns cfg s (.admin (.addBlocklist d.name reason))) d.name := by
  have hentry := domainEntry_canonical d hreason
  refine ⟨(mem_seed_step _).mpr (Or.inr hentry),fun m hm hw => ?_⟩
  obtain ⟨hold,hdel⟩ := ((mem_whitelist_step _).mp hw).resolve_right not_false
  by_cases he : m=d.name
  · rw [he] at hdel
    exact hdel hentry
  · exact hparents m hm he hold

/-- After an accepted `add_blocklist` and a refresh of the two lists, with no
later list write, every query for the domain is sinkholed, provided that the
domain has no bypass suffix and no whitelisted parent. -/
theorem addBlocklist_blocks (dns : Dnslib) (cfg : Config) (s : Deployment) (d : HostName)
    {reason : Option Text} (hreason : noteOk reason=true) (hbypass : isBypass d.name=false)
    (hparents : ∀ m∈parentChain d.name, m≠d.name → m∉s.db.whitelist)
    {before during between after : List Event}
    (hbefore : ∀ e∈before, isListWrite e=false) (hduring : ∀ e∈during, isListWrite e=false)
    (hbetween : ∀ e∈between, isListWrite e=false) (hafter : ∀ e∈after, isListWrite e=false) :
    BlocksQueries dns cfg
      (run (step dns cfg) s (.admin (.addBlocklist d.name reason)::
        (before++.admin (.clearCaches d.name)::
          (during++.refresh (.blocklist true)::
            (between++.refresh (.whitelist true)::after)))))
      d.name := by
  have hlisted : Listed (run (step dns cfg) (step dns cfg s
      (.admin (.addBlocklist d.name reason))) before) d.name :=
    listed_run dns cfg (listed_addBlocklist d hreason hparents) hbefore
  have hcleared := listed_run dns cfg (hlisted.clearCaches dns cfg d.name) hduring
  have hloaded := loaded_run dns cfg (hcleared.refresh dns cfg) hbetween
  have henforced := enforced_run dns cfg (hloaded.refresh dns cfg) hafter
  simp only [run_cons,run_append]
  exact blocksQueries_of_blocklisted hbypass henforced.exempt
    ⟨d.name,mem_parentChain_of_suffix d.dotted (Or.inl rfl),henforced.blocklist⟩

end Invariants

section Examples

/-- A second-level domain. -/
def badTk : HostName := ⟨"bad.tk".toList,hostChars_of_all (by decide),by decide,by decide,by decide⟩

/-- A subdomain of it. -/
def subBadTk : HostName :=
  ⟨"a.bad.tk".toList,hostChars_of_all (by decide),by decide,by decide,by decide⟩

/-- The requests and the refresh of one admin block. -/
def blockEvents (d : HostName) : List Event :=
  [.admin (.addBlocklist d.name none),.admin (.clearCaches d.name),.refresh (.blocklist true),
    .refresh (.whitelist true)]

/-- The domain itself and another one have been whitelisted. -/
def whitelistedBefore : Deployment :=
  run (step plainDns defaultConfig) Deployment.init
    [.admin (.addWhitelist badTk.name none "admin".toList),
      .admin (.addWhitelist "good.bc".toList none "admin".toList)]

/-- A query for the domain, which is answered from upstream or not at all. -/
def queryBadTk : Event :=
  .resolver (.query (aQuery badTk.name) none none fun _ => ⟨.timeout,.timeout⟩)

/-- An admin block takes the place of a whitelist row, whatever is queried,
reported and refreshed meanwhile. -/
theorem addBlocklist_blocks_badTk :
    BlocksQueries plainDns defaultConfig
      (run (step plainDns defaultConfig) whitelistedBefore
        (.admin (.addBlocklist badTk.name none)::([queryBadTk,.tick 5]++
          .admin (.clearCaches badTk.name)::([.report badTk.name none "192.0.2.1".toList]++
            .refresh (.blocklist true)::([queryBadTk]++
              .refresh (.whitelist true)::[.resolver (.runTask 0 true none)]))))) badTk.name := by
  refine addBlocklist_blocks plainDns defaultConfig whitelistedBefore badTk
    (show noteOk none=true from rfl) (by decide) ?_ ?_ ?_ ?_ ?_
  · decide +kernel
  all_goals decide

/-- The same block after its parent has been whitelisted. -/
def blockedBelowWhitelisted : Deployment :=
  run (step plainDns defaultConfig)
    (step plainDns defaultConfig Deployment.init
      (.admin (.addWhitelist badTk.name none "admin".toList)))
    (blockEvents subBadTk)

/-- With its parent whitelisted, the admin block of a subdomain has no effect. -/
theorem addBlocklist_passes_subBadTk :
    ¬BlocksQueries plainDns defaultConfig blockedBelowWhitelisted subBadTk.name := by
  intro h
  have hpasses : PassesQueries plainDns defaultConfig blockedBelowWhitelisted subBadTk.name :=
    passesQueries_of_whitelisted ⟨badTk.name,by decide,by decide⟩
  have hnone : plainDns.parse (aQuery subBadTk.name)=some (aQuestion subBadTk.name) := by decide
  obtain ⟨out,hout,hblocked,-⟩ := h (aQuery subBadTk.name) (aQuestion subBadTk.name) none none
    (fun _ => ⟨.timeout,.timeout⟩) (fun _ => true) hnone (by decide)
  rw [hpasses (aQuery subBadTk.name) (aQuestion subBadTk.name) none none
    (fun _ => ⟨.timeout,.timeout⟩) (fun _ => true) hnone (by decide)] at hout
  rw [←Except.ok.inj hout] at hblocked
  exact absurd hblocked (by decide)

end Examples

end ScamLens.BlockRequests
