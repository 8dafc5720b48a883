import ScamLens.ExtractedUrls
import ScamLens.ScanOutcomes
import ScamLens.Services

/-!
# Scraped posts

What the scraper does with a post or a feed entry: it takes the URLs, skips
the domains that are already known, sends the other URLs to the scanner
(entries of the feed count as classified), and puts the domains of the sure
scams on the blocklist. The scanner saves its own verdict while it is asked, and
may list the domain before the scraper does. A call that raises ends the post.
-/

namespace ScamLens.ScrapedPosts

open EventRuns ExpiringStores ExtractedUrls KeyedTables PythonText PythonUrls Resolver ScanOutcomes
  ScanWorker Services Tables VerdictStore

/-- Where the scraper looks for URLs. -/
inductive Source where
  | threads
  | reddit
  | urlhaus
  deriving DecidableEq

/-- The platform that rows of a source are labelled with. -/
def Source.platform : Source → Text
  | .threads => "threads".toList
  | .reddit => "reddit".toList
  | .urlhaus => "urlhaus".toList

/-- Whether the scanner has the last word; the feed is classified already. -/
def Source.asksScanner : Source → Bool
  | .threads => true
  | .reddit => true
  | .urlhaus => false

/-- `ThreadsPost`, with the fields that `_handle_post` reads. -/
structure ThreadsPost where
  /-- Text of the post. -/
  text : Text
  /-- Link to the post. -/
  permalink : Text
  /-- A post that quotes another one. -/
  isQuotePost : Bool
  /-- A reply. -/
  isReply : Bool

/-- `RedditPost`, with the fields that `_handle_reddit_post` reads. -/
structure RedditPost where
  /-- Link to the post. -/
  permalink : Text
  /-- Title. -/
  title : Text
  /-- Body. -/
  selftext : Text
  /-- External URL that the post links to. -/
  url : Text

/-- `URLhausEntry`, with the fields that `_run_urlhaus` reads. -/
structure UrlhausEntry where
  /-- Listed URL. -/
  url : Text
  /-- Page of the feed about it. -/
  reference : Text

/-- The `verdict` object of a scan report, with the fields that are compared. -/
structure Classification where
  /-- Verdict string. -/
  verdict : Option Text
  /-- Confidence. -/
  confidence : Option ℤ

/-- What the scanner saves while it is asked, with the outcomes of its
commands. -/
structure Saved where
  /-- The call that saves. -/
  call : Persist
  /-- Outcome of its SET. -/
  set : Except Text Unit
  /-- The INSERT of the verdict row succeeds. -/
  row : Bool
  /-- The INSERT of the blocklist row succeeds. -/
  promote : Bool

/-- Outcomes of the awaited calls for one URL. -/
structure Outcomes where
  /-- The GET of the cached verdict succeeds. -/
  redisUp : Bool
  /-- The SELECT of the known rows succeeds. -/
  selectUp : Bool
  /-- What the scanner saves in the course of `_classify`, if it saves. -/
  saved : Option Saved
  /-- Seconds that `_classify` takes. -/
  seconds : ℕ
  /-- What `_classify` returns; an empty report is no classification. -/
  classified : Option Classification
  /-- The INSERT of the blocklist row succeeds. -/
  insertUp : Bool

/-- A URL in one of the loops. -/
structure Visit where
  /-- The URL. -/
  url : Text
  /-- Link that a blocklist row gets for it. -/
  sourcePost : Text
  /-- Outcomes of its calls. -/
  outcomes : Outcomes

/-- `RunStats` -/
structure RunStats where
  /-- Posts read. -/
  postsSeen : ℕ := 0
  /-- URLs looked at. -/
  urlsSeen : ℕ := 0
  /-- Domains that were not known. -/
  domainsNew : ℕ := 0
  /-- Domains found to be scams. -/
  domainsBlocked : ℕ := 0
  /-- Searches that were given up. -/
  errors : ℕ := 0

/-- A pass of the scraper under way, with the history that its results are
about. -/
structure Pass where
  /-- The shared stores. -/
  site : Deployment
  /-- Statistics of the run. -/
  stats : RunStats
  /-- URLs sent to the scanner. -/
  sent : List Text
  /-- Domains that the scraper has inserted into the blocklist. -/
  inserted : List Text

/-- `_already_known`, none when it raises. A cached payload is never empty. -/
def alreadyKnown (o : Outcomes) (s : Deployment) (domain : Text) : Option Bool :=
  if !o.redisUp then none
  else if (getLive s.redis.verdicts s.now domain).isSome then some true
  else if !o.selectUp then none
  else some ((s.db.blocklistSeed.lookup domain).isSome || (s.db.whitelist.lookup domain).isSome)

/-- A scam by a classification that is sure enough. -/
def isSureScam (threshold : ℤ) (classified : Option Classification) : Bool :=
  classified.any fun v => v.verdict==some "scam".toList && threshold≤v.confidence.getD 0

/-- The stores after the INSERT of `_promote_to_blocklist`. -/
def promoted (s : Deployment) (source : Source) (sourcePost domain : Text) : Deployment :=
  {s with db := s.db.promoteScraped domain sourcePost source.platform}

namespace Pass

variable (p : Pass)

/-- Count a URL. -/
def countUrl : Pass := {p with stats := {p.stats with urlsSeen := p.stats.urlsSeen+1}}

/-- Count a domain that was not known. -/
def countNew : Pass := {p with stats := {p.stats with domainsNew := p.stats.domainsNew+1}}

/-- `_promote_to_blocklist`, which survives a failed INSERT, and its count. -/
def promote (o : Outcomes) (source : Source) (sourcePost domain : Text) : Pass :=
  let p := if o.insertUp then {p with
      site := promoted p.site source sourcePost domain
      inserted := p.inserted++[domain]}
    else p
  {p with stats := {p.stats with domainsBlocked := p.stats.domainsBlocked+1}}

end Pass

section Visits

variable (checks : NetlocChecks) (scanner : Resolver.Config) (threshold : ℤ)

/-- The stores after a `POST /scan` of the URL: the scanner saves under the
domain that it makes of it, and nothing for a text without one. -/
def scanned (o : Outcomes) (url : Text) (s : Deployment) : Deployment :=
  let s := {s with now := s.now+o.seconds}
  let domain := extractDomain checks url
  match o.saved with
  | none => s
  | some saved =>
    if domain=[] then s
    else
      match perform domain scanner s.now ⟨s.redis,s.db⟩ saved.set saved.row saved.promote
        saved.call with
      | .error _ => s
      | .ok after => {s with redis := after.redis, db := after.db}

/-- Ask the scanner about a URL. -/
def Pass.ask (o : Outcomes) (url : Text) (p : Pass) : Pass :=
  {p with site := scanned checks scanner o url p.site, sent := p.sent++[url]}

/-- The body of the loops over URLs, and whether it completes. -/
def visitUrl (source : Source) (sourcePost : Text) (o : Outcomes) (p : Pass) (url : Text) :
    Pass×Bool :=
  let p := p.countUrl
  let domain := urlToDomain checks url
  if domain.isEmpty || !domain.contains '.' then (p,true)
  else
    match alreadyKnown o p.site domain with
    | none => (p,false)
    | some true => (p,true)
    | some false =>
      let p := p.countNew
      if source.asksScanner then
        let p := p.ask checks scanner o url
        if isSureScam threshold o.classified then (p.promote o source sourcePost domain,true)
        else (p,true)
      else (p.promote o source sourcePost domain,true)

/-- The loop over URLs, which ends when a call raises. -/
def visitUrls (source : Source) : List Visit → Pass → Pass×Bool
  | [],p => (p,true)
  | v::visits,p =>
    let visited := visitUrl checks scanner threshold source v.sourcePost v.outcomes p v.url
    if visited.2 then visitUrls source visits visited.1 else visited

/-- The URLs that `_handle_post` looks at: none of a reply or a quote post. -/
def ThreadsPost.urls (post : ThreadsPost) : List Text :=
  if post.isReply || post.isQuotePost then [] else extractUrls checks post.text

/-- `_handle_post`, given the outcomes of the calls for each URL. -/
def handlePost (post : ThreadsPost) (o : Text → Outcomes) (p : Pass) : Pass×Bool :=
  visitUrls checks scanner threshold .threads
    ((post.urls checks).map fun url => ⟨url,post.permalink,o url⟩) p

/-- The URLs that `_handle_reddit_post` looks at, each once: the linked one,
unless it points back to Reddit, then those of the title and the body. -/
def RedditPost.urls (post : RedditPost) : List Text :=
  let linked := if !post.url.isEmpty && !contains "reddit.com".toList post.url then [post.url]
    else []
  (linked++extractUrls checks post.title++extractUrls checks post.selftext).eraseDups

/-- `_handle_reddit_post`, given the outcomes of the calls for each URL. -/
def handleRedditPost (post : RedditPost) (o : Text → Outcomes) (p : Pass) : Pass×Bool :=
  visitUrls checks scanner threshold .reddit
    ((post.urls checks).map fun url => ⟨url,post.permalink,o url⟩) p

/-- `_run_urlhaus` over the entries of the feed: what raises is counted. -/
def runUrlhaus (entries : List (UrlhausEntry×Outcomes)) (p : Pass) : Pass :=
  let done := visitUrls checks scanner threshold .urlhaus (entries.map fun e =>
    ⟨e.1.url,if e.1.reference.isEmpty then e.1.url else e.1.reference,e.2⟩) p
  if done.2 then done.1
  else {done.1 with stats := {done.1.stats with errors := done.1.stats.errors+1}}

/-- Whether a visit sends its URL to the scanner: its domain has a dot and is not
known, and the source asks. -/
def sends (source : Source) (o : Outcomes) (s : Deployment) (url : Text) : Bool :=
  let domain := urlToDomain checks url
  domain.contains '.' && alreadyKnown o s domain==some false && source.asksScanner

/-- Whether the visit of a URL gets as far as a blocklist row: its domain has a
dot and is not known, the source is sure, and the stores answer. -/
def reachesInsert (source : Source) (o : Outcomes) (s : Deployment) (url : Text) : Bool :=
  let domain := urlToDomain checks url
  domain.contains '.' && alreadyKnown o s domain==some false &&
    (!source.asksScanner || isSureScam threshold o.classified) && o.insertUp

/-- The domain that the scanner puts on the blocklist while it is asked. -/
def listedByScanner (o : Outcomes) (url : Text) : Option Text :=
  o.saved.bind fun saved =>
    match saved.call,saved.set with
    | .save verdict,.ok _ =>
      if extractDomain checks url≠[] ∧ saved.promote=true ∧ confirmsScam verdict=true then
        some (extractDomain checks url)
      else none
    | _,_ => none

variable {checks scanner threshold} {source : Source} {sourcePost url d : Text} {o : Outcomes}
  {p : Pass} {s : Deployment}

/-- A domain that is not known has no row in either list. -/
theorem notMem_of_alreadyKnown {domain : Text} (h : alreadyKnown o s domain=some false) :
    domain∉s.db.blocklistSeed ∧ domain∉s.db.whitelist := by
  rw [alreadyKnown] at h
  split_ifs at h
  · exact absurd h (by decide)
  have hboth := Bool.or_eq_false_iff.mp (Option.some.inj h)
  rw [Option.isSome_eq_false_iff,Option.isSome_eq_false_iff,Option.isNone_iff_eq_none,
    Option.isNone_iff_eq_none] at hboth
  exact ⟨Finmap.lookup_eq_none.mp hboth.1,Finmap.lookup_eq_none.mp hboth.2⟩

/-- What a save of the scanner leaves in Postgres. -/
def savedDb (db : Database) (domain : Text) (verdict : ScanVerdicts.ScanVerdict)
    (row promote : Bool) : Database :=
  let db := if row then db.upsertVerdict domain verdict else db
  if promote then savePromote domain db verdict else db

/-- A scan only takes its time, or ends in a saved verdict or in an error
marker. -/
theorem scanned_cases (scanner : Resolver.Config) (o : Outcomes) (url : Text) (s : Deployment) :
    (scanned checks scanner o url s={s with now := s.now+o.seconds} ∧
      listedByScanner checks o url=none) ∨
    (∃ verdict row promote,
      listedByScanner checks o url=
        (if promote=true ∧ confirmsScam verdict=true then some (extractDomain checks url)
          else none) ∧
      scanned checks scanner o url s={s with
        now := s.now+o.seconds
        redis := saveCache scanner (s.now+o.seconds) (extractDomain checks url) s.redis verdict
        db := savedDb s.db (extractDomain checks url) verdict row promote}) ∨
    (∃ reason, listedByScanner checks o url=none ∧
      scanned checks scanner o url s={s with
        now := s.now+o.seconds
        redis := saveErrorCache scanner (s.now+o.seconds) (extractDomain checks url) s.redis
          reason}) := by
  rw [scanned,listedByScanner]
  rcases o.saved with _ | ⟨call,set,row,promote⟩
  · exact .inl ⟨rfl,rfl⟩
  · dsimp only [Option.bind_some]
    by_cases hempty : extractDomain checks url=[]
    · rw [if_pos hempty]
      refine .inl ⟨rfl,?_⟩
      split
      · exact if_neg fun h => h.1 hempty
      · rfl
    · rw [if_neg hempty]
      rcases set with failure | ⟨⟩
      · cases call <;> exact .inl ⟨rfl,rfl⟩
      · cases call with
        | save verdict =>
          refine .inr (.inl ⟨verdict,row,promote,?_,rfl⟩)
          simp only [ne_eq,hempty,not_false_eq_true,true_and]
        | saveError reason => exact .inr (.inr ⟨reason,rfl,rfl⟩)

/-- A save adds a row to the blocklist if the verdict is a sure scam. -/
theorem lookup_savedDb (db : Database) (domain : Text) (verdict : ScanVerdicts.ScanVerdict)
    (row promote : Bool) (d : Text) :
    (savedDb db domain verdict row promote).blocklistSeed.lookup d=
      (db.blocklistSeed.lookup d).or
        (if (if promote=true ∧ confirmsScam verdict=true then some domain else none)=some d then
          some ⟨some "ai-confirmed".toList,none,none⟩ else none) := by
  have hrow : (if row then db.upsertVerdict domain verdict else db).blocklistSeed=
      db.blocklistSeed := by
    cases row <;> rfl
  have hnot : db.blocklistSeed.lookup d=(db.blocklistSeed.lookup d).or none :=
    Option.or_none.symm
  by_cases hsure : promote=true ∧ confirmsScam verdict=true
  · rw [savedDb,if_pos hsure.1,savePromote,if_pos hsure.2,Database.promoteToBlocklist,if_pos hsure]
    dsimp only
    rw [hrow,lookup_insertIgnore]
    by_cases hd : d=domain
    · rw [hd,if_pos rfl,if_pos rfl]
      cases db.blocklistSeed.lookup domain <;> rfl
    · rw [if_neg hd,if_neg fun h => hd (Option.some.inj h).symm]
      exact hnot
  · rw [if_neg hsure,if_neg (by simp),←hnot,savedDb]
    split
    · rename_i hpromote
      rw [savePromote,if_neg fun h => hsure ⟨hpromote,h⟩,hrow]
    · rw [hrow]

/-- A save touches nothing else in Postgres but the verdict row of its domain. -/
theorem savedDb_frame (db : Database) (domain : Text) (verdict : ScanVerdicts.ScanVerdict)
    (row promote : Bool) :
    savedDb db domain verdict row promote={db with
      blocklistSeed := (savedDb db domain verdict row promote).blocklistSeed
      domainVerdicts := if row then (db.upsertVerdict domain verdict).domainVerdicts
        else db.domainVerdicts} := by
  rw [savedDb,savePromote]
  cases row <;> cases promote <;> cases confirmsScam verdict <;> rfl

/-- A scan lists the domain that the scanner is sure of, if it has no row. -/
theorem lookup_scanned (scanner : Resolver.Config) (o : Outcomes) (url : Text) (s : Deployment)
    (d : Text) : (scanned checks scanner o url s).db.blocklistSeed.lookup d=
      (s.db.blocklistSeed.lookup d).or (if listedByScanner checks o url=some d then
        some ⟨some "ai-confirmed".toList,none,none⟩ else none) := by
  have hnot : s.db.blocklistSeed.lookup d=(s.db.blocklistSeed.lookup d).or none :=
    Option.or_none.symm
  obtain ⟨hout,hlisted⟩ | ⟨verdict,row,promote,hlisted,hout⟩ | ⟨reason,hlisted,hout⟩ :=
    @scanned_cases checks scanner o url s
  · rw [hout,hlisted]
    exact hnot
  · rw [hout,hlisted]
    exact lookup_savedDb s.db _ verdict row promote d
  · rw [hout,hlisted]
    exact hnot

theorem mem_scanned {scanner : Resolver.Config} {o : Outcomes} {url : Text} {s : Deployment}
    {d : Text} : d∈(scanned checks scanner o url s).db.blocklistSeed ↔
      d∈s.db.blocklistSeed ∨ listedByScanner checks o url=some d := by
  rw [← Finmap.lookup_isSome,lookup_scanned,Option.isSome_or,Bool.or_eq_true,Finmap.lookup_isSome]
  refine or_congr_right ?_
  split
  · rename_i hlisted
    exact iff_of_true rfl hlisted
  · rename_i hlisted
    exact iff_of_false Bool.false_ne_true hlisted

/-- Nothing changes but the clock, the verdicts of some domains and the
blocklist, and the rows that are there stay as they are. -/
structure Frame (changed : Text → Prop) (s after : Deployment) : Prop where
  /-- The rows of the blocklist stay. -/
  kept : ∀ d row, s.db.blocklistSeed.lookup d=some row →
    after.db.blocklistSeed.lookup d=some row
  /-- The verdicts of the other domains stay. -/
  verdicts : ∀ d, ¬changed d →
    after.redis.verdicts.lookup d=s.redis.verdicts.lookup d ∧
      after.db.domainVerdicts.lookup d=s.db.domainVerdicts.lookup d
  /-- So do the other stores. -/
  site : after={s with
    now := after.now
    redis := {s.redis with verdicts := after.redis.verdicts}
    db := {s.db with
      blocklistSeed := after.db.blocklistSeed
      domainVerdicts := after.db.domainVerdicts}}

/-- No step changes nothing. -/
theorem Frame.refl (changed : Text → Prop) (s : Deployment) : Frame changed s s where
  kept := fun _ _ h => h
  verdicts := fun _ _ => ⟨rfl,rfl⟩
  site := rfl

theorem Frame.mem {changed : Text → Prop} {s after : Deployment} (h : Frame changed s after)
    {d : Text} (hd : d∈s.db.blocklistSeed) : d∈after.db.blocklistSeed := by
  obtain ⟨row,hrow⟩ := Finmap.mem_iff.mp hd
  exact Finmap.mem_iff.mpr ⟨row,h.kept d row hrow⟩

/-- Two steps in a row. -/
theorem Frame.trans {changed : Text → Prop} {s after last : Deployment}
    (h : Frame changed s after) (h' : Frame changed after last) : Frame changed s last where
  kept := fun d row hd => h'.kept d row (h.kept d row hd)
  verdicts := fun d hd =>
    ⟨(h'.verdicts d hd).1.trans (h.verdicts d hd).1,(h'.verdicts d hd).2.trans (h.verdicts d hd).2⟩
  site := by rw [h'.site,h.site]

/-- What changes less changes no more. -/
theorem Frame.mono {changed changed' : Text → Prop} {s after : Deployment}
    (h : Frame changed s after) (himp : ∀ d, changed d → changed' d) : Frame changed' s after where
  kept := h.kept
  verdicts := fun d hd => h.verdicts d (mt (himp d) hd)
  site := h.site

/-- A scan changes the verdicts of the domain that the scanner makes of the
URL. -/
theorem frame_scanned (scanner : Resolver.Config) (o : Outcomes) (url : Text) (s : Deployment) :
    Frame (· = extractDomain checks url) s (scanned checks scanner o url s) where
  kept := by
    intro d row hd
    rw [lookup_scanned,hd]
    rfl
  verdicts := by
    intro d hd
    obtain ⟨hout,-⟩ | ⟨verdict,row,promote,-,hout⟩ | ⟨reason,-,hout⟩ :=
      @scanned_cases checks scanner o url s
    · rw [hout]
      exact ⟨rfl,rfl⟩
    · rw [hout]
      refine ⟨(lookup_saveCache _ _ _ _ _ _).trans (if_neg hd),?_⟩
      rw [savedDb_frame]
      cases row with
      | false => rfl
      | true => exact (lookup_insert_ite _ _ _ _).trans (if_neg hd)
    · rw [hout]
      exact ⟨(lookup_saveErrorCache _ _ _ _ _ _).trans (if_neg hd),rfl⟩
  site := by
    obtain ⟨hout,-⟩ | ⟨verdict,row,promote,-,hout⟩ | ⟨reason,-,hout⟩ :=
      @scanned_cases checks scanner o url s
    · rw [hout]
    · rw [hout,savedDb_frame]
      rfl
    · rw [hout]
      rfl

/-- A row for a domain that has had none changes no other. -/
theorem Frame.promoted {changed : Text → Prop} {after : Deployment} (h : Frame changed s after)
    {domain : Text} (hfresh : domain∉s.db.blocklistSeed) (source : Source) (sourcePost : Text) :
    Frame changed s (ScrapedPosts.promoted after source sourcePost domain) where
  kept := by
    intro d row hd
    have hne : d≠domain := by
      rintro rfl
      rw [Finmap.lookup_eq_none.mpr hfresh] at hd
      cases hd
    rw [ScrapedPosts.promoted,Database.promoteScraped]
    dsimp only
    rw [lookup_upsert,if_neg hne]
    exact h.kept d row hd
  verdicts := h.verdicts
  site := by
    rw [h.site]
    rfl

/-- What is inserted and counted of a promotion. -/
theorem promote_frame (p : Pass) (o : Outcomes) (source : Source) (sourcePost domain : Text) :
    let out := p.promote o source sourcePost domain
    out.inserted=p.inserted++(if o.insertUp then [domain] else []) ∧
      out.site=(if o.insertUp then promoted p.site source sourcePost domain else p.site) ∧
      out.sent=p.sent ∧
      out.stats={p.stats with domainsBlocked := p.stats.domainsBlocked+1} := by
  dsimp only
  rw [Pass.promote]
  cases o.insertUp with
  | false => exact ⟨(List.append_nil _).symm,rfl,rfl,rfl⟩
  | true => exact ⟨rfl,rfl,rfl,rfl⟩

/-- A visit counts its URL and leaves it; or its domain is not known, and the
scanner says that it is no sure scam, or the domain is promoted. -/
theorem visitUrl_cases (checks : NetlocChecks) (scanner : Resolver.Config) (threshold : ℤ)
    (source : Source) (sourcePost url : Text) (o : Outcomes) (p : Pass) :
    let domain := urlToDomain checks url
    let out := visitUrl checks scanner threshold source sourcePost o p url
    (¬(domain.contains '.'=true ∧ alreadyKnown o p.site domain=some false) ∧ out.1=p.countUrl ∧
      (out.2=true ↔ (domain.contains '.'=true → (alreadyKnown o p.site domain).isSome=true))) ∨
    (domain.contains '.'=true ∧ alreadyKnown o p.site domain=some false ∧ out.2=true ∧
      ((source.asksScanner=true ∧ isSureScam threshold o.classified=false ∧
        out.1=p.countUrl.countNew.ask checks scanner o url) ∨
      ((source.asksScanner=true → isSureScam threshold o.classified=true) ∧
        out.1=(if source.asksScanner then p.countUrl.countNew.ask checks scanner o url
          else p.countUrl.countNew).promote o source sourcePost domain))) := by
  have hsite : p.countUrl.site=p.site := rfl
  dsimp only
  rw [visitUrl]
  cases hdot : (urlToDomain checks url).contains '.' with
  | false => simp
  | true =>
    have hne : (urlToDomain checks url).isEmpty=false := by
      cases hd : urlToDomain checks url with
      | nil =>
        rw [hd] at hdot
        exact absurd hdot (by decide)
      | cons c rest => rfl
    cases hknown : alreadyKnown o p.site (urlToDomain checks url) with
    | none => simp [hne,hsite,hknown]
    | some known =>
      cases known with
      | true => simp [hne,hsite,hknown]
      | false =>
        cases hasks : source.asksScanner with
        | false => simp [hne,hsite,hknown]
        | true =>
          cases hsure : isSureScam threshold o.classified with
          | false => simp [hne,hsite,hknown]
          | true => simp [hne,hsite,hknown]

/-- The stores once a visit has asked the scanner, if it does. -/
def askedSite (checks : NetlocChecks) (scanner : Resolver.Config) (source : Source) (o : Outcomes)
    (s : Deployment) (url : Text) : Deployment :=
  if sends checks source o s url then scanned checks scanner o url s else s

/-- A visit sends its URL to the scanner if it has to; it inserts the domain of
the URL if it gets that far, and nothing else. What the scanner saves and the
insertion are what changes the stores. -/
theorem visitUrl_effects :
    let out := visitUrl checks scanner threshold source sourcePost o p url
    out.1.sent=p.sent++(if sends checks source o p.site url then [url] else []) ∧
    out.1.inserted=p.inserted++(if reachesInsert checks threshold source o p.site url then
      [urlToDomain checks url] else []) ∧
    out.1.site=if reachesInsert checks threshold source o p.site url then
      promoted (askedSite checks scanner source o p.site url) source sourcePost
        (urlToDomain checks url) else askedSite checks scanner source o p.site url := by
  dsimp only
  rw [askedSite,sends,reachesInsert]
  obtain ⟨hnot,hout,-⟩ | ⟨hdot,hknown,-,⟨hasks,hsure,hout⟩ | ⟨hsure,hout⟩⟩ :=
    visitUrl_cases checks scanner threshold source sourcePost url o p
  · have hstays : ((urlToDomain checks url).contains '.' &&
        alreadyKnown o p.site (urlToDomain checks url)==some false)=false := by
      rw [Bool.eq_false_iff,ne_eq,Bool.and_eq_true,beq_iff_eq]
      exact hnot
    rw [hout,hstays,Bool.false_and,Bool.false_and,Bool.false_and,if_neg Bool.false_ne_true,
      if_neg Bool.false_ne_true,if_neg Bool.false_ne_true,List.append_nil,List.append_nil]
    exact ⟨rfl,rfl,rfl⟩
  · rw [hout,hdot,hknown,hasks,hsure,beq_self_eq_true]
    exact ⟨rfl,(List.append_nil _).symm,rfl⟩
  · have hreach : (!source.asksScanner || isSureScam threshold o.classified)=true := by
      cases hasks : source.asksScanner with
      | false => rfl
      | true => exact hsure hasks
    obtain ⟨hinserted,hsite,hsent,-⟩ := promote_frame (if source.asksScanner then
      p.countUrl.countNew.ask checks scanner o url else p.countUrl.countNew) o source sourcePost
      (urlToDomain checks url)
    rw [hout,hinserted,hsite,hsent,hreach,hdot,hknown,beq_self_eq_true,Bool.and_self,Bool.and_self,
      Bool.true_and,Bool.true_and]
    cases source.asksScanner with
    | false => exact ⟨(List.append_nil _).symm,rfl,rfl⟩
    | true => exact ⟨rfl,rfl,rfl⟩

/-- A row of the blocklist behind a visit was there before, was put there by the
scanner, or is that of the inserted domain. -/
theorem mem_seed_visitUrl :
    d∈(visitUrl checks scanner threshold source sourcePost o p url).1.site.db.blocklistSeed ↔
      d∈p.site.db.blocklistSeed ∨
        (sends checks source o p.site url=true ∧ listedByScanner checks o url=some d) ∨
        (reachesInsert checks threshold source o p.site url=true ∧ d=urlToDomain checks url) := by
  have hasked : d∈(askedSite checks scanner source o p.site url).db.blocklistSeed ↔
      d∈p.site.db.blocklistSeed ∨
        (sends checks source o p.site url=true ∧ listedByScanner checks o url=some d) := by
    rw [askedSite]
    split
    · rename_i hsends
      rw [mem_scanned,hsends]
      exact or_congr_right (and_iff_right rfl).symm
    · rename_i hsends
      exact (or_iff_left fun h => hsends h.1).symm
  rw [visitUrl_effects.2.2,← or_assoc,← hasked]
  split
  · rename_i hreach
    refine mem_upsert.trans (or_comm.trans (or_congr_right ?_))
    exact ⟨fun he => ⟨hreach,he⟩,And.right⟩
  · rename_i hreach
    exact ⟨.inl,fun hd => hd.resolve_right fun hr => hreach hr.1⟩

/-- A visit changes the verdicts of the domain that the scanner makes of the URL,
if it is asked. -/
theorem frame_visitUrl : Frame (fun d =>
      sends checks source o p.site url=true ∧ d=extractDomain checks url) p.site
    (visitUrl checks scanner threshold source sourcePost o p url).1.site := by
  have hasked : Frame (fun d => sends checks source o p.site url=true ∧
      d=extractDomain checks url) p.site (askedSite checks scanner source o p.site url) := by
    rw [askedSite]
    split
    · rename_i hsends
      exact (frame_scanned scanner o url p.site).mono fun d hd => ⟨hsends,hd⟩
    · exact .refl _ _
  rw [visitUrl_effects.2.2]
  split
  · rename_i hreach
    rw [reachesInsert,Bool.and_eq_true,Bool.and_eq_true,Bool.and_eq_true,beq_iff_eq] at hreach
    exact hasked.promoted (notMem_of_alreadyKnown hreach.1.1.2).1 source sourcePost
  · exact hasked

/-- The visits that insert the domain of their URL are those that get that far. -/
theorem inserted_visitUrl_iff :
    (visitUrl checks scanner threshold source sourcePost o p url).1.inserted=
        p.inserted++[urlToDomain checks url] ↔
      reachesInsert checks threshold source o p.site url=true := by
  rw [visitUrl_effects.2.1]
  split
  · rename_i hreach
    exact iff_of_true rfl hreach
  · rename_i hreach
    refine iff_of_false (fun h => ?_) hreach
    exact List.cons_ne_nil _ _ (List.append_cancel_left h).symm

/-- The domain of a visit that gets as far as the insertion is not on the
whitelist itself. -/
theorem matchChain_of_reachesInsert
    (hreach : reachesInsert checks threshold source o s url=true) :
    matchChain (urlToDomain checks url) s.db.selectWhitelist=true ↔
      ∃ m∈parentChain (urlToDomain checks url), m≠urlToDomain checks url ∧ m∈s.db.whitelist := by
  rw [reachesInsert,Bool.and_eq_true,Bool.and_eq_true,Bool.and_eq_true,beq_iff_eq] at hreach
  have hself := (notMem_of_alreadyKnown hreach.1.1.2).2
  rw [matchChain_iff]
  constructor
  · rintro ⟨m,hm,hlisted⟩
    have hmem := s.db.mem_selectWhitelist.mp hlisted
    exact ⟨m,hm,fun he => hself (he ▸ hmem),hmem⟩
  · rintro ⟨m,hm,-,hmem⟩
    exact ⟨m,hm,s.db.mem_selectWhitelist.mpr hmem⟩

/-- A visit inserts a name that the resolver treats as whitelisted exactly when it
gets as far as the insertion of a domain below a whitelisted one. -/
theorem visitUrl_whitelist_iff :
    ((visitUrl checks scanner threshold source sourcePost o p url).1.inserted=
        p.inserted++[urlToDomain checks url] →
      matchChain (urlToDomain checks url) p.site.db.selectWhitelist=false) ↔
    (reachesInsert checks threshold source o p.site url=true →
      ∀ m∈parentChain (urlToDomain checks url), m≠urlToDomain checks url →
        m∉p.site.db.whitelist) := by
  rw [inserted_visitUrl_iff]
  refine forall_congr' fun hreach => ?_
  rw [Bool.eq_false_iff,ne_eq,matchChain_of_reachesInsert hreach]
  simp only [not_exists,not_and]

/-- No visit changes the whitelist. -/
theorem visitUrl_whitelist :
    (visitUrl checks scanner threshold source sourcePost o p url).1.site.db.whitelist=
      p.site.db.whitelist := by
  rw [(frame_visitUrl (p := p)).site]

/-- A loop over URLs below no whitelisted domain inserts no name that the resolver
treats as whitelisted. -/
theorem inserted_visitUrls {visits : List Visit}
    (h : ∀ v∈visits, ∀ m∈parentChain (urlToDomain checks v.url), m≠urlToDomain checks v.url →
      m∉p.site.db.whitelist)
    (hd : d∈(visitUrls checks scanner threshold source visits p).1.inserted) :
    d∈p.inserted ∨ matchChain d p.site.db.selectWhitelist=false := by
  induction visits generalizing p with
  | nil => exact .inl hd
  | cons v visits ih =>
    have hstep : d∈(visitUrl checks scanner threshold source v.sourcePost v.outcomes p
        v.url).1.inserted → d∈p.inserted ∨ matchChain d p.site.db.selectWhitelist=false := by
      rw [visitUrl_effects.2.1]
      intro hinserted
      refine (List.mem_append.mp hinserted).imp_right fun hnew => ?_
      split at hnew
      · rename_i hreach
        rw [List.mem_singleton.mp hnew,Bool.eq_false_iff,ne_eq,matchChain_of_reachesInsert hreach]
        rintro ⟨m,hm,hne,hlisted⟩
        exact h v List.mem_cons_self m hm hne hlisted
      · exact absurd hnew List.not_mem_nil
    rw [visitUrls] at hd
    split at hd
    · have hrest := ih (fun w hw => by
        rw [visitUrl_whitelist]
        exact h w (List.mem_cons_of_mem _ hw)) hd
      rw [Database.selectWhitelist,visitUrl_whitelist] at hrest
      exact hrest.elim hstep .inr
    · exact hstep hd

end Visits

section Example

/-- Calls that succeed, with a scan report of a sure scam, which the scanner has
saved. -/
private def sureOutcomes : Outcomes where
  redisUp := true
  selectUp := true
  saved := some ⟨.save scamVerdict,.ok (),true,true⟩
  seconds := 9
  classified := some ⟨some "scam".toList,some 90⟩
  insertUp := true

/-- A pass that starts with one whitelisted domain. -/
private def listedPass : Pass where
  site := {Deployment.init with db := {Database.init with
    whitelist := upsert ∅ "example.com".toList ⟨none,none⟩ fun _ row => row}}
  stats := {}
  sent := []
  inserted := []

/-- Every source inserts a name below a whitelisted domain. -/
theorem visitUrl_below_whitelisted :
    matchChain "login.example.com".toList listedPass.site.db.selectWhitelist=true ∧
    "login.example.com".toList∉listedPass.site.db.blocklistSeed ∧
    [(handlePost ⟨fun _ => true,fun _ => true⟩ defaultConfig 70
        ⟨"see http://login.example.com/a".toList,"p".toList,false,false⟩ (fun _ => sureOutcomes)
        listedPass).1,
      (handleRedditPost ⟨fun _ => true,fun _ => true⟩ defaultConfig 70
        ⟨"p".toList,"look".toList,[],"http://login.example.com/a".toList⟩ (fun _ => sureOutcomes)
        listedPass).1,
      runUrlhaus ⟨fun _ => true,fun _ => true⟩ defaultConfig 70
        [(⟨"http://login.example.com/a".toList,"r".toList⟩,sureOutcomes)] listedPass].Forall
      fun p => p.inserted=["login.example.com".toList] ∧
        "login.example.com".toList∈p.site.db.blocklistSeed := by
  decide +kernel

end Example

end ScamLens.ScrapedPosts
