import ScamLens.PlainMessages
import ScamLens.ResolverAnswers

/-!
# Blocks in the admin Blocklist tab

The tab shows the seed rows. The resolver promotes what it blocks to them,
except for blocks by its blocklist in memory, which it takes for seed rows. The
query of that list returns verdict rows as well, and of these only the sure
scams are promoted by the scanner. A block is shown when the list has been
loaded without the others.
-/

namespace ScamLens.BlockAudits

open DomainEntries EventRuns ExpiringStores KeyedTables PlainMessages PythonText Resolver
  ResolverAnswers ScanVerdicts ServiceFrames Services TableFrames Tables Upstream VerdictCache
  VerdictStore

/-- The property of a name or of a member of its chain. -/
def Reaches (P : Text → Prop) (d : Text) : Prop := ∃ m, (m=d ∨ m∈parentChain d) ∧ P m

/-- The tab shows a row for a name or for a member of its chain. -/
def Shown (db : Database) (d : Text) : Prop := Reaches (· ∈ db.blocklistSeed) d

/-- A name is blocked in the course of a run. -/
def BlockedIn (dns : Dnslib) (cfg : Config) (s : Deployment) (events : List Event) (d : Text) :
    Prop :=
  ∃ first e second r, events=first++e::second ∧
    answerOf dns cfg (run (step dns cfg) s first) e=some r ∧ r.blocked=true ∧ r.domain=d

/-- Events of a run in which no seed row is deleted and no task fails. -/
def isAudited : Event → Bool
  | .resolver (.runTask _ ok _) => ok
  | .admin (.deleteSeed _) => false
  | .admin (.addWhitelist _ _ _) => false
  | _ => true

/-- Every save of a sure scam writes both of its rows in the course of a run. -/
def SavesComplete (events : List Event) : Prop :=
  ∀ domain v, .scanner (.saveRow domain v)∈events → confirmsScam v=true →
    .scanner (.savePromote domain v)∈events

/-- A verdict row of a sure scam. -/
def HasSureScam (db : Database) (d : Text) : Prop :=
  ∃ row, db.domainVerdicts.lookup d=some row ∧ row.verdict=.scam ∧ 70 ≤ row.confidence

/-- A refresh of the blocklist loads no verdict row that is neither shown nor
that of a sure scam. -/
def LoadsShown (s : Deployment) : Event → Prop
  | .refresh (.blocklist true) =>
    ∀ d, '.'∈d → s.db.HasBlockingRow d → Shown s.db d ∨ HasSureScam s.db d
  | _ => True

section Invariants

variable {dns : Dnslib} {cfg : Config} {s : Deployment} {e : Event} {owed : Text → Prop}
  {d : Text}

/-- A name that is shown, or will be when the saves are through. -/
def Due (owed : Text → Prop) (s : Deployment) (d : Text) : Prop :=
  Reaches (fun m => m∈s.db.blocklistSeed ∨ owed m) d

/-- What holds of the stores and lists along such a run. -/
structure Audited (owed : Text → Prop) (s : Deployment) : Prop where
  /-- The blocklist in memory. -/
  lists : ∀ m∈s.lists.blocklist, '.'∈m → Due owed s m
  /-- Confirmed reports have their seed row. -/
  reports : ∀ d, s.db.HasConfirmedReport d → d∈s.db.blocklistSeed
  /-- Sure scams are promoted. -/
  rows : ∀ d, HasSureScam s.db d → owed d
  /-- No cached verdict says that it comes from the blocklist. -/
  entries : ∀ d entry, s.redis.verdicts.lookup d=some entry →
    entry.value.source≠some "blocklist".toList
  /-- No task caches such a verdict. -/
  tasks : ∀ d v ttl, .cacheSet d v ttl∈s.tasks → v.source≠"blocklist".toList

/-- Such an event deletes no seed row. -/
theorem not_deletesSeed (h : isAudited e=true) : ¬DeletesSeed d e := by
  intro hd
  cases e with
  | admin e => cases e <;> first | exact hd | cases h
  | _ => exact hd

/-- Seed rows stay. -/
theorem seed_step (h : isAudited e=true) (hd : d∈s.db.blocklistSeed) :
    d∈(step dns cfg s e).db.blocklistSeed :=
  (mem_seed_step e).mpr (Or.inl ⟨hd,not_deletesSeed h⟩)

theorem Reaches.mono {P Q : Text → Prop} (h : Reaches P d) (hPQ : ∀ m, P m → Q m) :
    Reaches Q d := by
  obtain ⟨m,hm,hP⟩ := h
  exact ⟨m,hm,hPQ m hP⟩

/-- What a chain member reaches the name reaches. -/
theorem Reaches.of_mem {P : Text → Prop} {m : Text} (hm : m∈parentChain d) (h : Reaches P m) :
    Reaches P d := by
  obtain ⟨n,hn,hP⟩ := h
  rcases hn with rfl|hn
  · exact ⟨n,Or.inr hm,hP⟩
  · exact ⟨n,Or.inr (parentChain_trans hn hm),hP⟩

theorem Due.step (h : Due owed s d) (he : isAudited e=true) :
    Due owed (Services.step dns cfg s e) d :=
  h.mono fun _ hm => hm.imp_left (seed_step he)

/-- A sure scam is saved by an event, or was there. -/
theorem hasSureScam_step (h : HasSureScam (step dns cfg s e).db d) :
    HasSureScam s.db d ∨ ∃ v, e=.scanner (.saveRow d v) ∧ confirmsScam v=true := by
  obtain ⟨row,hrow,hscam,hsure⟩ := h
  obtain hold|⟨v,he,rfl⟩ := lookup_blockingRow_step hrow (Or.inl hscam)
  · exact Or.inl ⟨row,hold,hscam,hsure⟩
  · refine Or.inr ⟨v,he,?_⟩
    rw [confirmsScam,Bool.and_eq_true,decide_eq_true_eq,decide_eq_true_eq]
    exact ⟨hscam,hsure⟩

/-- A deployment that has just started is audited. -/
theorem audited_init : Audited owed Deployment.init := by
  refine ⟨fun m hm => absurd hm (Finset.notMem_empty m),fun d h => ?_,fun d h => ?_,
    fun d entry h => (by cases h),fun d v ttl h => absurd h List.not_mem_nil⟩
  · obtain ⟨id,row,hrow,-⟩ := h
    cases hrow
  · obtain ⟨row,hrow,-⟩ := h
    cases hrow

/-- No event puts "blocklist" under a verdict key. -/
theorem Audited.entry (h : Audited owed s) {entry : Expiring CachedJson}
    (hw : WritesEntry cfg s d entry e) : entry.value.source≠some "blocklist".toList := by
  rcases writesEntry_cases hw with ⟨i,ip,v,ttl,-,ht,rfl⟩|⟨i,ip,-,-,rfl⟩|⟨v,-,rfl⟩|⟨reason,-,rfl⟩
  · intro he
    exact h.tasks d v ttl (List.mem_of_getElem? ht) (Option.some.inj he)
  · exact fun he => absurd (Option.some.inj he) (by decide)
  · exact fun he => absurd (Option.some.inj he) (by decide)
  · exact fun he => absurd (Option.some.inj he) (by decide)

/-- A refreshed blocklist is due. -/
theorem Audited.refresh (h : Audited owed s) (hload : LoadsShown s (.refresh (.blocklist true)))
    (hd : d∈s.db.selectBlocklist) (hdot : '.'∈d) : Due owed s d := by
  rcases s.db.mem_selectBlocklist.mp hd with hseed|hrow|hreport
  · exact ⟨d,Or.inl rfl,Or.inl hseed⟩
  · rcases hload d hdot hrow with hshown|hsure
    · exact hshown.mono fun m hm => Or.inl hm
    · exact ⟨d,Or.inl rfl,Or.inr (h.rows d hsure)⟩
  · exact ⟨d,Or.inl rfl,Or.inl (h.reports d hreport)⟩

/-- Such an event keeps stores and lists audited. -/
theorem audited_step (dns : Dnslib) (cfg : Config) (h : Audited owed s) (he : isAudited e=true)
    (hload : LoadsShown s e)
    (howed : ∀ d v, e=.scanner (.saveRow d v) → confirmsScam v=true → owed d) :
    Audited owed (step dns cfg s e) := by
  refine ⟨fun m hm hdot => ?_,fun d hd => ?_,fun d hd => ?_,fun d entry hentry => ?_,
    fun d v ttl ht => ?_⟩
  · refine Due.step ?_ he
    rcases step_lists dns cfg s e with hl|⟨part,rfl,hl⟩
    · rw [hl] at hm
      exact h.lists m hm hdot
    · rw [hl] at hm
      cases part with
      | blocklist ok =>
        cases ok with
        | false => exact h.lists m hm hdot
        | true => exact h.refresh hload hm hdot
      | _ => exact h.lists m hm hdot
  · rcases hasConfirmedReport_step hd with hold|⟨id,row,rfl,hrow,hdomain⟩
    · exact seed_step he (h.reports d hold)
    · exact (mem_seed_step _).mpr (Or.inr ⟨row,hrow,hdomain⟩)
  · rcases hasSureScam_step hd with hold|⟨v,hsave,hv⟩
    · exact h.rows d hold
    · exact howed d v hsave hv
  · rcases lookup_verdicts_step hentry with hold|hw
    · exact h.entries d entry hold
    · exact h.entry hw
  · rcases cacheSet_step ht with hold|⟨hit,rfl⟩
    · exact h.tasks d v ttl hold
    · have hsource : (typosquatVerdict hit).source="typosquat".toList := rfl
      rw [hsource]
      decide

/-- A name that is due, or that a task will promote. -/
def Pending (owed : Text → Prop) (s : Deployment) (d : Text) : Prop :=
  Due owed s d ∨ ∃ category, .promoteToBlocklist d category∈s.tasks

/-- A promotion waits until it is done. -/
theorem pending_step (dns : Dnslib) (cfg : Config) (h : Pending owed s d)
    (he : isAudited e=true) : Pending owed (step dns cfg s e) d := by
  rcases h with hdue|⟨category,htask⟩
  · exact Or.inl (hdue.step he)
  have hmoved := @mem_tasks_step_of_mem dns cfg s e _ htask
  rcases hmoved with hkept|⟨i,ok,ip,rfl,hrun⟩
  · exact Or.inr ⟨category,hkept⟩
  · exact Or.inl ⟨d,Or.inl rfl,Or.inl ((mem_seed_step _).mpr (Or.inr ⟨he,category,hrun⟩))⟩

/-- A blocked name is due, or promoted by a task behind the event. -/
theorem Audited.pending (h : Audited owed s) (he : isAudited e=true) {r : ResolveResult}
    (hanswer : answerOf dns cfg s e=some r) (hblocked : r.blocked=true) :
    Pending owed (step dns cfg s e) r.domain := by
  rcases blocked_reason hanswer hblocked with ⟨m,hm,hlist⟩|⟨candidate,up,v,hread,hsource⟩|htask
  · have hdue := h.lists m hlist (dot_mem_of_mem_parentChain hm)
    exact Or.inl (Due.step (hdue.of_mem hm) he)
  · cases up with
    | false => cases hread
    | true =>
      rw [getVerdict_up] at hread
      cases hlive : getLive s.redis.verdicts s.now candidate with
      | none =>
        rw [hlive] at hread
        cases hread
      | some data =>
        obtain ⟨entry,hentry,-,rfl⟩ := getLive_eq_some.mp hlive
        have hother := h.entries candidate entry hentry
        rw [hlive,Option.map_some,cacheGet] at hread
        split at hread
        · cases hread
        · rw [←Option.some.inj (Except.ok.inj hread)] at hsource
          dsimp only at hsource
          cases hs : entry.value.source with
          | none =>
            rw [hs] at hsource
            exact absurd hsource (by decide)
          | some source =>
            rw [hs,Option.getD_some] at hsource
            exact absurd (hs.trans (congrArg some hsource)) hother
  · exact Or.inr htask

/-- The seed row that a save has written is there at the end of a run. -/
theorem seed_of_savePromote (s : Deployment) {events : List Event}
    (haudited : ∀ e∈events, isAudited e=true) {v : ScanVerdict}
    (hsave : .scanner (.savePromote d v)∈events) (hv : confirmsScam v=true) :
    d∈(run (step dns cfg) s events).db.blocklistSeed := by
  obtain ⟨first,second,rfl⟩ := List.append_of_mem hsave
  have hwritten : d∈(step dns cfg (run (step dns cfg) s first)
      (.scanner (.savePromote d v))).db.blocklistSeed :=
    (mem_seed_step _).mpr (Or.inr ⟨rfl,hv⟩)
  have hkept : ∀ t e, d∈t.db.blocklistSeed → isAudited e=true →
      d∈(step dns cfg t e).db.blocklistSeed := fun t e ht he => seed_step he ht
  rw [run_append,run_cons]
  exact run_invariant (fun t : Deployment => d∈t.db.blocklistSeed) hkept hwritten fun e he =>
    haudited e (List.mem_append_right _ (List.mem_cons_of_mem _ he))

/-- In a run in which no seed row is deleted, every task succeeds and runs, and
every save completes, each blocked name is shown at the end, if the refreshes
of the blocklist load no verdict row that is neither shown nor that of a sure
scam. -/
theorem blocks_shown {events : List Event} (haudited : ∀ e∈events, isAudited e=true)
    (hsaves : SavesComplete events)
    (htasks : (run (step dns cfg) Deployment.init events).tasks=[])
    (hload : Along (step dns cfg) LoadsShown Deployment.init events)
    (hblocked : BlockedIn dns cfg Deployment.init events d) :
    Shown (run (step dns cfg) Deployment.init events).db d := by
  obtain ⟨first,e,second,r,rfl,hanswer,hblocked,rfl⟩ := hblocked
  generalize howed : (fun m => ∃ v, .scanner (.saveRow m v)∈first++e::second ∧
    confirmsScam v=true)=owed
  have hinv : ∀ s e, Audited owed s →
      (isAudited e=true ∧ ∀ m v, e=.scanner (.saveRow m v) → confirmsScam v=true → owed m) ∧
        LoadsShown s e → Audited owed (step dns cfg s e) :=
    fun s e hs hok => audited_step dns cfg hs hok.1.1 hok.2 hok.1.2
  have hmember : ∀ e'∈first, isAudited e'=true ∧
      ∀ m v, e'=.scanner (.saveRow m v) → confirmsScam v=true → owed m := by
    intro e' he'
    have hin := List.mem_append_left (e::second) he'
    refine ⟨haudited e' hin,fun m v hsave hv => ?_⟩
    rw [←howed]
    exact ⟨v,hsave ▸ hin,hv⟩
  have hfirst : Audited owed (run (step dns cfg) Deployment.init first) :=
    ((along_of_forall hmember _).and ((along_append _ _ _).mp hload).1).invariant hinv audited_init
  have hpending := hfirst.pending (haudited e (List.mem_append_right _ List.mem_cons_self))
    hanswer hblocked
  have hstep : ∀ s e, Pending owed s r.domain → isAudited e=true →
      Pending owed (step dns cfg s e) r.domain := fun s e hs he => pending_step dns cfg hs he
  have hlast : Pending owed (run (step dns cfg) Deployment.init (first++e::second)) r.domain := by
    rw [run_append,run_cons]
    exact run_invariant (Pending owed · r.domain) hstep hpending fun e' he' =>
      haudited e' (List.mem_append_right _ (List.mem_cons_of_mem _ he'))
  rcases hlast with hdue|⟨category,htask⟩
  · refine hdue.mono fun m hm => hm.elim id fun hm => ?_
    rw [←howed] at hm
    obtain ⟨v,hsave,hv⟩ := hm
    exact seed_of_savePromote _ haudited (hsaves m v hsave hv) hv
  · rw [htasks] at htask
    exact absurd htask List.not_mem_nil

end Invariants

section Examples

/-- The scraper lists a domain, a scan of it ends in a suspicious verdict, a
refresh loads both rows, and a query is blocked. -/
def scrapedEvents : List Event :=
  let v : ScanVerdict := {scamVerdict with verdict := .suspicious}
  [.scraper "bad.tk".toList "post".toList "threads".toList,
    .scanner (.saveCache "bad.tk".toList v),.scanner (.saveRow "bad.tk".toList v),
    .scanner (.savePromote "bad.tk".toList v),.refresh (.blocklist true),
    .resolver (.query (aQuery "bad.tk".toList) none none fun _ => ⟨.timeout,.timeout⟩),
    .resolver (.runTask 0 true none)]

/-- A scan ends in a suspicious verdict, a refresh loads it, and a query is
blocked. -/
def suspiciousEvents : List Event :=
  let v : ScanVerdict := {scamVerdict with verdict := .suspicious}
  [.scanner (.saveCache "bad.tk".toList v),.scanner (.saveRow "bad.tk".toList v),
    .scanner (.savePromote "bad.tk".toList v),.refresh (.blocklist true),
    .resolver (.query (aQuery "bad.tk".toList) none none fun _ => ⟨.timeout,.timeout⟩),
    .resolver (.runTask 0 true none)]

/-- A block of a domain that was scraped before its scan is shown. -/
theorem scraped_shown : Shown (run (step plainDns defaultConfig) Deployment.init
    scrapedEvents).db "bad.tk".toList := by
  have haudited : ∀ e∈scrapedEvents, isAudited e=true := List.all_eq_true.mp (by decide +kernel)
  have hsaves : SavesComplete scrapedEvents := by
    intro domain v hsave hv
    simp only [scrapedEvents,List.mem_cons,List.not_mem_nil,or_false] at hsave
    rcases hsave with h|h|h|h|h|h|h <;> cases h
    exact absurd hv (by decide)
  have hload : Along (step plainDns defaultConfig) LoadsShown Deployment.init scrapedEvents := by
    refine ⟨trivial,trivial,trivial,trivial,fun d _ h => .inl ⟨d,.inl rfl,?_⟩,trivial,trivial,
      trivial⟩
    -- the only verdict row is the saved one
    obtain h|⟨v,⟨⟩⟩ := hasBlockingRow_step h
    obtain h|⟨v,h⟩ := hasBlockingRow_step h
    · obtain h|⟨v,⟨⟩⟩ := hasBlockingRow_step h
      obtain h|⟨v,⟨⟩⟩ := hasBlockingRow_step h
      obtain ⟨row,hrow,-⟩ := h
      cases hrow
    · cases h
      decide +kernel
  have hanswer : (answerOf plainDns defaultConfig
      (run (step plainDns defaultConfig) Deployment.init (scrapedEvents.take 5))
      (.resolver (.query (aQuery "bad.tk".toList) none none fun _ => ⟨.timeout,.timeout⟩))).map
      (fun r => (r.blocked,r.domain))=some (true,"bad.tk".toList) := by decide +kernel
  obtain ⟨r,hr,hblocked⟩ := Option.map_eq_some_iff.mp hanswer
  exact blocks_shown haudited hsaves (by decide +kernel) hload
    ⟨scrapedEvents.take 5,_,[.resolver (.runTask 0 true none)],r,rfl,hr,
      congrArg Prod.fst hblocked,congrArg Prod.snd hblocked⟩

/-- A block of a suspicious domain is not shown. -/
theorem suspicious_not_shown : ¬∀ (events : List Event) (d : Text),
    (∀ e∈events, isAudited e=true) → SavesComplete events →
    (run (step plainDns defaultConfig) Deployment.init events).tasks=[] →
    BlockedIn plainDns defaultConfig Deployment.init events d →
    Shown (run (step plainDns defaultConfig) Deployment.init events).db d := by
  intro h
  have haudited : ∀ e∈suspiciousEvents, isAudited e=true := List.all_eq_true.mp (by decide +kernel)
  have hsaves : SavesComplete suspiciousEvents := by
    intro domain v hsave hv
    simp only [suspiciousEvents,List.mem_cons,List.not_mem_nil,or_false] at hsave
    rcases hsave with h|h|h|h|h|h <;> cases h
    exact absurd hv (by decide)
  have hanswer : (answerOf plainDns defaultConfig
      (run (step plainDns defaultConfig) Deployment.init (suspiciousEvents.take 4))
      (.resolver (.query (aQuery "bad.tk".toList) none none fun _ => ⟨.timeout,.timeout⟩))).map
      (fun r => (r.blocked,r.domain))=some (true,"bad.tk".toList) := by decide +kernel
  obtain ⟨r,hr,hblocked⟩ := Option.map_eq_some_iff.mp hanswer
  obtain ⟨m,-,hseed⟩ := h suspiciousEvents "bad.tk".toList haudited hsaves (by decide +kernel)
    ⟨suspiciousEvents.take 4,_,[.resolver (.runTask 0 true none)],r,rfl,hr,
      congrArg Prod.fst hblocked,congrArg Prod.snd hblocked⟩
  have hempty : (run (step plainDns defaultConfig) Deployment.init
      suspiciousEvents).db.blocklistSeed=∅ := rfl
  rw [hempty] at hseed
  exact absurd hseed Finmap.notMem_empty

end Examples

end ScamLens.BlockAudits
