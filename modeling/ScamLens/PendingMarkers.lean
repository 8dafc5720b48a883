import ScamLens.BlockRequests

/-!
# Pending markers on the way to a parent's verdict

The cache walk of a query ends at the nearest entry. A marker of a scan under
way is such an entry but blocks nothing, so a blocking verdict of a parent is
out of reach while a nearer member of the chain is marked. This cannot happen
in runs in which neither is written while the other is live.
-/

namespace ScamLens.PendingMarkers

open Answers BlockRequests DomainEntries EventRuns ExpiringStores NamePolicy PlainMessages
  PythonText Resolver ResolverPolicy ServiceFrames Services Typosquat Upstream VerdictCache
  VerdictStore

/-- The domain has a live blocking verdict. -/
def LiveBlock (s : Deployment) (c : Text) : Prop :=
  ∃ data kind, liveEntry s c=some data ∧ data.verdict=some kind ∧ kind.isBlocking=true

/-- The domain is marked as being scanned. -/
def LivePending (s : Deployment) (c : Text) : Prop :=
  ∃ data, liveEntry s c=some data ∧ data.verdict=some .pending

/-- A marked chain member is nearer than one with a blocking verdict. -/
def Shadowed (d : Text) (s : Deployment) : Prop :=
  ∃ near p far, parentChain d=near++p::far ∧ LiveBlock s p ∧ ∃ m∈near, LivePending s m

/-- The event marks no chain member in front of a live blocking verdict, and
caches no blocking verdict behind a live marker. -/
def NoShadow (cfg : Config) (d : Text) (s : Deployment) (e : Event) : Prop :=
  ∀ near p far, parentChain d=near++p::far → ∀ m∈near, ∀ entry,
    (WritesEntry cfg s m entry e → entry.value.verdict=some .pending → ¬LiveBlock s p) ∧
    (WritesEntry cfg s p entry e →
      (∃ kind, entry.value.verdict=some kind ∧ kind.isBlocking=true) → ¬LivePending s m)

section Invariants

variable {dns : Dnslib} {cfg : Config} {s : Deployment} {d : Text} {e : Event}

/-- What is live after an event was live before it or is written by it. -/
theorem liveEntry_step {c : Text} {data : CachedJson}
    (h : liveEntry (step dns cfg s e) c=some data) :
    liveEntry s c=some data ∨ ∃ entry, WritesEntry cfg s c entry e ∧ entry.value=data := by
  obtain ⟨entry,hentry,hlive,hvalue⟩ := getLive_eq_some.mp h
  obtain hold|hnew := lookup_verdicts_step hentry
  · have hnow : s.now≤(step dns cfg s e).now := step_now dns cfg s e
    exact Or.inl (getLive_eq_some.mpr ⟨entry,hold,by omega,hvalue⟩)
  · exact Or.inr ⟨entry,hnew,hvalue⟩

/-- Such an event hides no verdict that was not hidden before. -/
theorem not_shadowed_step (h : ¬Shadowed d s) (he : NoShadow cfg d s e) :
    ¬Shadowed d (step dns cfg s e) := by
  intro hs
  obtain ⟨near,p,far,hchain,⟨pdata,kind,hp,hkind,hblocking⟩,m,hm,mdata,hmarked,hpending⟩ := hs
  obtain hpold|⟨pentry,hpnew,hpvalue⟩ := liveEntry_step hp
  · have hblock : LiveBlock s p := ⟨pdata,kind,hpold,hkind,hblocking⟩
    obtain hmold|⟨mentry,hmnew,hmvalue⟩ := liveEntry_step hmarked
    · exact h ⟨near,p,far,hchain,hblock,m,hm,mdata,hmold,hpending⟩
    · refine (he near p far hchain m hm mentry).1 hmnew ?_ hblock
      rw [hmvalue,hpending]
  · obtain hmold|⟨mentry,hmnew,hmvalue⟩ := liveEntry_step hmarked
    · refine (he near p far hchain m hm pentry).2 hpnew ⟨kind,?_,hblocking⟩
        ⟨mdata,hmold,hpending⟩
      rw [hpvalue,hkind]
    · have hsame : mdata=pdata := by rw [←hmvalue,←hpvalue,hmnew.unique hpnew]
      rw [hsame,hkind] at hpending
      rw [Option.some.inj hpending] at hblocking
      cases hblocking

/-- Behind chain members that are at most marked, a name with a blocking
verdict is condemned unless one of them is marked, apart from the blocklist and
the squat detector. -/
theorem condemned_iff {near far : List Text} {p : Text} (hchain : parentChain d=near++p::far)
    (hp : LiveBlock s p)
    (hnear : ∀ m∈near, ∀ data, liveEntry s m=some data → data.verdict=some .pending) :
    (policyOf s.lists (cacheReads s fun _ => true)).Condemned d ↔
      (∃ m∈parentChain d, m∈s.lists.blocklist) ∨ (∀ m∈near, liveEntry s m=none) ∨
        (check s.lists.typosquat d).isSome=true := by
  have hread : ∀ c, (policyOf s.lists (cacheReads s fun _ => true)).verdict c=
      (liveEntry s c).bind (·.verdict) := fun c => readableKind_cacheReads rfl
  by_cases hfree : ∀ m∈near, liveEntry s m=none
  · obtain ⟨data,kind,hdata,hkind,hblocking⟩ := hp
    have hnearest := Policy.nearest_eq_of_split
      (show (policyOf s.lists (cacheReads s fun _ => true)).chain d=near++p::far from hchain)
      (fun m hm => by rw [hread,hfree m hm]; rfl) (by rw [hread,hdata]; exact hkind)
    exact ⟨fun _ => Or.inr (Or.inl hfree),fun _ => Or.inr (Or.inl ⟨kind,hnearest,hblocking⟩)⟩
  · have hmarked : ∃ m∈near, liveEntry s m≠none := by
      simpa only [not_forall,exists_prop] using hfree
    have hnearest : (policyOf s.lists (cacheReads s fun _ => true)).nearest d=some .pending := by
      refine Policy.nearest_eq_of_only hchain (fun m hm k hk => ?_) ?_
      · rw [hread] at hk
        obtain ⟨data,hdata,hv⟩ := Option.bind_eq_some_iff.mp hk
        exact Option.some.inj (hv.symm.trans (hnear m hm data hdata))
      · obtain ⟨m,hm,hlive⟩ := hmarked
        obtain ⟨data,hdata⟩ := Option.ne_none_iff_exists'.mp hlive
        refine ⟨m,hm,?_⟩
        rw [hread,hdata,Option.bind_some,hnear m hm data hdata]
        exact Option.some_ne_none _
    rw [Policy.Condemned,hnearest]
    constructor
    · intro h
      rcases h with hb|⟨kind,hkind,hblocking⟩|⟨-,hsquat⟩
      · exact Or.inl hb
      · rw [←Option.some.inj hkind] at hblocking
        cases hblocking
      · exact Or.inr (Or.inr hsquat)
    · intro h
      rcases h with hb|hn|hsquat
      · exact Or.inl hb
      · exact absurd hn hfree
      · exact Or.inr (Or.inr ⟨by decide,hsquat⟩)

/-- Such a name is sinkholed exactly when it is condemned, with Redis up. -/
theorem resolve_sinkholes_iff (hbypass : isBypass d=false)
    (hwhitelist : ∀ m∈parentChain d, m∉s.lists.whitelist) {near far : List Text} {p : Text}
    (hchain : parentChain d=near++p::far) (hp : LiveBlock s p)
    (hnear : ∀ m∈near, ∀ data, liveEntry s m=some data → data.verdict=some .pending)
    {wire : Wire} {request : DNSRecord} (hparse : dns.parse wire=some request)
    (hname : questionName request=d) (clientIp : Option Text) (userId : Option ℕ)
    (net : Server → Exchange) :
    (∃ out, resolve dns cfg s.lists (cacheReads s fun _ => true) net wire clientIp userId=.ok out ∧
        IsSinkhole dns cfg request d out.1) ↔
      (∃ m∈parentChain d, m∈s.lists.blocklist) ∨ (∀ m∈near, liveEntry s m=none) ∨
        (check s.lists.typosquat d).isSome=true := by
  have hmem : p∈parentChain d := by
    rw [hchain]
    exact List.mem_append_right near List.mem_cons_self
  have hexempt : ¬(policyOf s.lists (cacheReads s fun _ => true)).Exempt d :=
    not_exempt hbypass hwhitelist (List.ne_nil_of_mem hmem)
  have hfirst : ReadableFirst (cacheReads s fun _ => true) (parentChain d) := by
    rw [hchain]
    refine readableFirst_append (fun m hm => readable_of_verdict fun data hdata =>
      ⟨_,hnear m hm data hdata⟩) ?_
    obtain ⟨data,kind,hdata,hkind,-⟩ := hp
    obtain ⟨v,hv,-⟩ := cacheGet_of_verdict hkind
    have hlive : getLive s.redis.verdicts s.now p=some data := hdata
    rw [ReadableFirst,cacheReads,getVerdict_up,hlive,Option.map_some,hv]
    trivial
  obtain ⟨out,hout⟩ := (resolveName_returns_iff dns cfg s.lists (cacheReads s fun _ => true) net
    request clientIp userId d).mpr (Or.inr (Or.inr hfirst))
  have hdecides := resolveName_decides dns cfg s.lists (cacheReads s fun _ => true) net request
    clientIp userId hout
  rw [resolve_of_parse hparse,hname,hout,←condemned_iff hchain hp hnear]
  constructor
  · intro h
    obtain ⟨other,hother,hsink⟩ := h
    by_contra hc
    rw [←Except.ok.inj hother,hdecides.forwarded fun hs => hc hs.2] at hsink
    exact Bool.false_ne_true ((forward_blocked dns net request d).symm.trans hsink.1)
  · intro h
    exact ⟨out,rfl,hdecides.sinkholed ⟨hexempt,h⟩⟩

/-- A blocking verdict on the chain reaches a name behind chain members that
are at most marked, in every state of a run in which no marker was set in front
of a live blocking verdict and no blocking verdict was cached behind a live
marker. -/
theorem liveBlock_sinkholes (hs : ¬Shadowed d s) {events : List Event}
    (hrun : Along (step dns cfg) (NoShadow cfg d) s events) {t : Deployment}
    (ht : t=run (step dns cfg) s events) (hbypass : isBypass d=false)
    (hwhitelist : ∀ m∈parentChain d, m∉t.lists.whitelist) {near far : List Text} {p : Text}
    (hchain : parentChain d=near++p::far) (hp : LiveBlock t p)
    (hnear : ∀ m∈near, ∀ data, liveEntry t m=some data → data.verdict=some .pending) :
    SinkholesQueries dns cfg t d := by
  have hclear : ¬Shadowed d t := by
    rw [ht]
    exact hrun.invariant (fun s e => not_shadowed_step) hs
  have hfree : ∀ m∈near, liveEntry t m=none := by
    intro m hm
    by_contra hlive
    obtain ⟨data,hdata⟩ := Option.ne_none_iff_exists'.mp hlive
    exact hclear ⟨near,p,far,hchain,hp,m,hm,data,hdata,hnear m hm data hdata⟩
  intro wire request clientIp userId net hparse hname
  exact (resolve_sinkholes_iff hbypass hwhitelist hchain hp hnear hparse hname clientIp userId
    net).mpr (Or.inr (Or.inl hfree))

end Invariants

section Examples

/-- The scanner saves that verdict in Redis for a second-level domain. -/
def scannedBadTk : Deployment :=
  run (step plainDns defaultConfig) Deployment.init
    [.scanner (.saveCache badTk.name scamVerdict)]

/-- A subdomain without an entry of its own is sinkholed for that verdict. -/
theorem liveBlock_sinkholes_subBadTk :
    SinkholesQueries plainDns defaultConfig scannedBadTk subBadTk.name := by
  have hempty : ∀ c, liveEntry Deployment.init c=none := fun _ => rfl
  have hunblocked : ∀ c, ¬LiveBlock Deployment.init c := by
    intro c h
    obtain ⟨data,kind,hdata,-⟩ := h
    rw [hempty] at hdata
    cases hdata
  have hunmarked : ∀ c, ¬LivePending Deployment.init c := by
    intro c h
    obtain ⟨data,hdata,-⟩ := h
    rw [hempty] at hdata
    cases hdata
  have hclear : ¬Shadowed subBadTk.name Deployment.init := by
    intro h
    obtain ⟨near,p,far,-,hp,-⟩ := h
    exact hunblocked p hp
  have hrun : Along (step plainDns defaultConfig) (NoShadow defaultConfig subBadTk.name)
      Deployment.init [.scanner (.saveCache badTk.name scamVerdict)] :=
    ⟨fun near p far _ m _ entry => ⟨fun _ _ => hunblocked p,fun _ _ => hunmarked m⟩,trivial⟩
  have hnear : ∀ m∈["a.bad.tk".toList], ∀ data, liveEntry scannedBadTk m=some data →
      data.verdict=some .pending := by
    intro m hm data hdata
    have hfree : liveEntry scannedBadTk "a.bad.tk".toList=none := by decide +kernel
    rw [List.mem_singleton.mp hm,hfree] at hdata
    cases hdata
  exact liveBlock_sinkholes hclear hrun rfl (by decide) (by decide +kernel)
    (show parentChain subBadTk.name=["a.bad.tk".toList]++"bad.tk".toList::[] from by decide)
    ⟨savedPayload scamVerdict,.scam,by decide +kernel,rfl,rfl⟩ hnear

/-- A first query for the subdomain has it scanned, and before that scan ends
the scan of its parent comes to a scam verdict. -/
def scannedWhileMarked : Deployment :=
  run (step plainDns defaultConfig) Deployment.init
    [.resolver (.query (aQuery subBadTk.name) none none fun _ => ⟨.timeout,.timeout⟩),
      .resolver (.read 0 true fun _ => ⟨.timeout,.timeout⟩),
      .resolver (.read 0 true fun _ => ⟨.timeout,.timeout⟩),.resolver (.runTask 0 true none),
      .resolver (.runTask 0 true none),.resolver (.runTask 0 true none),
      .scanner (.saveCache badTk.name scamVerdict)]

/-- The marker of the subdomain hides the scam verdict of its parent. -/
theorem scannedWhileMarked_hides :
    LiveBlock scannedWhileMarked badTk.name ∧ LivePending scannedWhileMarked subBadTk.name ∧
      parentChain subBadTk.name=[subBadTk.name]++badTk.name::[] ∧
      isBypass subBadTk.name=false ∧
      (∀ m∈parentChain subBadTk.name, m∉scannedWhileMarked.lists.whitelist) ∧
      ¬SinkholesQueries plainDns defaultConfig scannedWhileMarked subBadTk.name := by
  have hp : LiveBlock scannedWhileMarked badTk.name :=
    ⟨savedPayload scamVerdict,.scam,by decide +kernel,rfl,rfl⟩
  have hmarked : liveEntry scannedWhileMarked subBadTk.name=some pendingPayload := by decide +kernel
  have hchain : parentChain subBadTk.name=[subBadTk.name]++badTk.name::[] := by decide
  have hwhitelist : ∀ m∈parentChain subBadTk.name, m∉scannedWhileMarked.lists.whitelist := by
    decide +kernel
  have hnear : ∀ m∈[subBadTk.name], ∀ data, liveEntry scannedWhileMarked m=some data →
      data.verdict=some .pending := by
    intro m hm data hdata
    rw [List.mem_singleton.mp hm,hmarked] at hdata
    rw [←Option.some.inj hdata]
    rfl
  refine ⟨hp,⟨_,hmarked,rfl⟩,hchain,by decide,hwhitelist,fun h => ?_⟩
  have hparse : plainDns.parse (aQuery subBadTk.name)=some (aQuestion subBadTk.name) := by decide
  have hsink := h (aQuery subBadTk.name) (aQuestion subBadTk.name) none none
    (fun _ => ⟨.timeout,.timeout⟩) hparse (by decide)
  have hreason := (resolve_sinkholes_iff (by decide) hwhitelist hchain hp hnear hparse (by decide)
    none none _).mp hsink
  rcases hreason with hlist|hfree|hsquat
  · exact absurd hlist (by decide +kernel)
  · have hnone := hfree subBadTk.name (List.mem_singleton_self _)
    rw [hmarked] at hnone
    cases hnone
  · exact absurd hsquat (by decide +kernel)

end Examples

end ScamLens.PendingMarkers
