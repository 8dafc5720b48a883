import ScamLens.PagedWalks
import ScamLens.UrlhausFeeds

/-!
# Runs of the scraper

A run goes through its keywords until the deadline: it searches each one page by
page, handles the posts as they come, and survives what raises. Whatever the
searches return, whichever calls fail and whatever the scanner saves while it is
asked, the run accounts for every row that is added; and while new posts arrive,
each search handles the newest ones of when it began, each once.
-/

namespace ScamLens.ScrapeRuns

open ExtractedUrls KeyedTables PagedWalks PythonText PythonUrls ScrapedPosts Services Tables
  UrlhausFeeds

/-- A post in a page of the Threads search, with the fields that are handled. -/
structure RawThreadsPost where
  /-- Text, if the field is there. -/
  text : Option Text
  /-- Link. -/
  permalink : Option Text
  /-- Flag of a quote post. -/
  isQuotePost : Option Bool
  /-- Flag of a reply. -/
  isReply : Option Bool

/-- A post in a page of the Reddit search, with the fields that are handled. -/
structure RawRedditPost where
  /-- Identifier; the cursor of the search is made of it. -/
  id : Text
  /-- Path of the post, if the field is there. -/
  permalink : Option Text
  /-- Title. -/
  title : Option Text
  /-- Body. -/
  selftext : Option Text
  /-- External URL. -/
  url : Option Text

/-- The `ThreadsPost` that `keyword_search` yields for it. -/
def RawThreadsPost.post (raw : RawThreadsPost) : ThreadsPost :=
  ⟨raw.text.getD [],raw.permalink.getD [],raw.isQuotePost.getD false,raw.isReply.getD false⟩

/-- The `RedditPost` that `_iter_search` yields for it. -/
def RawRedditPost.post (raw : RawRedditPost) : RedditPost :=
  ⟨"https://www.reddit.com".toList++raw.permalink.getD [],raw.title.getD [],raw.selftext.getD [],
    raw.url.getD []⟩

/-- What an HTTP GET for a page comes to. -/
inductive Fetched (π : Type) where
  /-- `httpx.TransportError` -/
  | transportError
  /-- Another exception. -/
  | otherError
  /-- A response with its posts and its cursor, or none for a body that is no
  JSON. -/
  | response (status : ℕ) (body : Option (List π×Option Text))

/-- The parameters of a request that vary. -/
structure Request where
  /-- Searched keyword. -/
  query : Text
  /-- Subreddit that the search is restricted to. -/
  subreddit : Option Text
  /-- Cursor. -/
  after : Option Text

/-- What a run meets. -/
structure World (π : Type) where
  /-- Readings of `time.time()`. -/
  clock : ℕ → ℤ
  /-- Seconds that pass in front of each post. -/
  pause : ℕ → ℕ
  /-- What each request comes to. -/
  fetch : ℕ → Request → Fetched π
  /-- Outcomes of the calls for the URLs of each post. -/
  outcomes : ℕ → Text → Outcomes

/-- A run under way. -/
structure Run (π : Type) where
  /-- The stores and the statistics. -/
  pass : Pass
  /-- Readings of the clock so far. -/
  readings : ℕ
  /-- Requests for pages so far. -/
  requests : ℕ
  /-- Posts handled, in their order. -/
  handled : List π

/-- A cursor that is empty is none. -/
def nextCursor (after : Option Text) : Option Text := after.filter fun cursor => !cursor.isEmpty

section Search

variable {π : Type} (w : World π)

/-- `ThreadsClient._get` with some attempts left: another one follows a
transport error only. -/
def threadsGet (request : Request) : ℕ → Run π → Run π×Option (List π×Option Text)
  | 0,r => (r,none)
  | attempts+1,r =>
    let sent := {r with requests := r.requests+1}
    match w.fetch r.requests request with
    | .transportError => threadsGet request attempts sent
    | .otherError => (sent,none)
    | .response status body => (sent,if 400 ≤ status then none else body)

/-- The request of `keyword_search` for a page. -/
def threadsAsk (query : Text) (_subreddit after : Option Text) (r : Run π) :
    Run π×Answer π Text :=
  let got := threadsGet w ⟨query,none,after⟩ 3 r
  (got.1,match got.2 with
    | none => .ends
    | some page => .page page.1 (nextCursor page.2))

/-- The request of `_iter_search` for a page: a body that is no JSON raises. -/
def redditAsk (query : Text) (subreddit after : Option Text) (r : Run π) :
    Run π×Answer π Text :=
  ({r with requests := r.requests+1},match w.fetch r.requests ⟨query,subreddit,after⟩ with
    | .transportError => .ends
    | .otherError => .ends
    | .response status body =>
      if 400 ≤ status then .ends
      else match body with
        | none => .raises
        | some page => .page page.1 (nextCursor page.2))

/-- The body of the loop over the posts of a search. -/
def visitPost (handle : π → (Text → Outcomes) → Pass → Pass×Bool) (deadline : ℤ) (post : π)
    (r : Run π) : Run π×Outcome :=
  if deadline≤w.clock r.readings then ({r with readings := r.readings+1},.stopped)
  else
    let counted := {r.pass with
      site := {r.pass.site with now := r.pass.site.now+w.pause r.handled.length}
      stats := {r.pass.stats with postsSeen := r.pass.stats.postsSeen+1}}
    let done := handle post (w.outcomes r.handled.length) counted
    (⟨done.1,r.readings+1,r.requests,r.handled++[post]⟩,if done.2 then .done else .raised)

/-- A source as the loops see it. -/
structure Searched (π : Type) where
  /-- Request for a page. -/
  ask : Text → Option Text → Option Text → Run π → Run π×Answer π Text
  /-- Handling of a post. -/
  handle : π → (Text → Outcomes) → Pass → Pass×Bool
  /-- Subreddits to search one by one; none for everything. -/
  targets : List (Option Text)
  /-- Pages for each keyword. -/
  maxPages : ℕ

variable (search : Searched π) (deadline : ℤ)

/-- The search for a keyword in some subreddits, with the loop over its posts. -/
def searchTargets (query : Text) : List (Option Text) → Run π → Run π×Outcome
  | [],r => (r,.done)
  | target::targets,r =>
    let out := walkPages (search.ask query target) (visitPost w search.handle deadline)
      search.maxPages none r
    match out.2 with
    | .done => searchTargets query targets out.1
    | .stopped => out
    | .raised => out

/-- Count an error. -/
def Run.countError (r : Run π) : Run π :=
  {r with pass := {r.pass with stats := {r.pass.stats with errors := r.pass.stats.errors+1}}}

/-- The loop over the keywords. -/
def runKeywords : List Text → Run π → Run π
  | [],r => r
  | keyword::keywords,r =>
    let read := {r with readings := r.readings+1}
    if deadline≤w.clock r.readings then read
    else
      let out := searchTargets w search deadline keyword search.targets read
      if out.2=.raised then runKeywords keywords out.1.countError
      else runKeywords keywords out.1

/-- A run over some keywords, for so many minutes from the first reading on. -/
def runFor (minutes : ℤ) (keywords : List Text) (site : Deployment) : Run π :=
  runKeywords w search (w.clock 0+minutes*60) keywords ⟨⟨site,{},[],[]⟩,1,0,[]⟩

end Search

/-- `Config`, with the fields that a run reads. -/
structure Config where
  /-- Keywords to search for. -/
  keywords : List Text
  /-- Minutes for a run. -/
  durationMinutes : ℤ
  /-- Pages for a keyword. -/
  maxPagesPerKeyword : ℕ
  /-- Least confidence of a verdict that blocks. -/
  confidenceThreshold : ℤ

/-- What `run_window` is asked to do otherwise. -/
structure Overrides where
  /-- Other keywords. -/
  keywords : Option (List Text)
  /-- Another duration. -/
  durationMinutes : Option ℤ
  /-- Another number of pages. -/
  maxPages : Option ℕ
  /-- Subreddits to search. -/
  subreddits : Option (List Text)

section Windows

variable (checks : NetlocChecks) (scanner : Resolver.Config) (cfg : Config) (given : Overrides)

/-- The search of `_run_threads`. -/
def threadsSearch (w : World RawThreadsPost) : Searched RawThreadsPost where
  ask := threadsAsk w
  handle := fun raw o p => handlePost checks scanner cfg.confidenceThreshold raw.post o p
  targets := [none]
  maxPages := given.maxPages.getD cfg.maxPagesPerKeyword

/-- The search of `_run_reddit`; an empty list of subreddits is none. -/
def redditSearch (w : World RawRedditPost) : Searched RawRedditPost where
  ask := redditAsk w
  handle := fun raw o p => handleRedditPost checks scanner cfg.confidenceThreshold raw.post o p
  targets := if (given.subreddits.getD []).isEmpty then [none]
    else (given.subreddits.getD []).map some
  maxPages := given.maxPages.getD cfg.maxPagesPerKeyword

/-- The loops of `_run_threads`. -/
def runThreads (w : World RawThreadsPost) (site : Deployment) : Run RawThreadsPost :=
  runFor w (threadsSearch checks scanner cfg given w)
    (given.durationMinutes.getD cfg.durationMinutes) (given.keywords.getD cfg.keywords) site

/-- The loops of `_run_reddit`. -/
def runReddit (w : World RawRedditPost) (site : Deployment) : Run RawRedditPost :=
  runFor w (redditSearch checks scanner cfg given w)
    (given.durationMinutes.getD cfg.durationMinutes) (given.keywords.getD cfg.keywords) site

end Windows

section Audits

variable {checks : NetlocChecks} {scanner : Resolver.Config} {threshold : ℤ} {source : Source}
  {visits : List Visit} {p q : Pass} {asked inserted : List Text}

/-- What a pass may do over some visits: ask the scanner about these URLs, and
insert these domains. Its counts stand for that, rows stay as they are, and
nothing else changes but the verdicts of the domains that the scanner was asked
about. -/
structure Audit (checks : NetlocChecks) (threshold : ℤ) (source : Source) (visits : List Visit)
    (p q : Pass) (asked inserted : List Text) : Prop where
  /-- The URLs that the scanner is asked about. -/
  sent : q.sent=p.sent++asked
  /-- The domains that are inserted. -/
  insertions : q.inserted=p.inserted++inserted
  /-- A domain that is inserted is counted as blocked. -/
  blocked : inserted.length+p.stats.domainsBlocked≤ q.stats.domainsBlocked
  /-- A domain that is blocked was new. -/
  known : q.stats.domainsBlocked+p.stats.domainsNew≤ q.stats.domainsNew+p.stats.domainsBlocked
  /-- A domain that is new comes from a URL. -/
  new : q.stats.domainsNew+p.stats.urlsSeen≤ q.stats.urlsSeen+p.stats.domainsNew
  /-- A URL is one of a visit. -/
  seen : q.stats.urlsSeen≤ p.stats.urlsSeen+visits.length
  /-- The scanner is asked once for each domain that is counted as new, or never. -/
  asks : asked.length+p.stats.domainsNew=
    if source.asksScanner then q.stats.domainsNew else p.stats.domainsNew
  /-- It is asked about URLs whose domain has a dot and is on no list. -/
  askable : ∀ url∈asked, (urlToDomain checks url).contains '.'=true ∧
    urlToDomain checks url∉p.site.db.blocklistSeed ∧ urlToDomain checks url∉p.site.db.whitelist ∧
    ∃ v∈visits, v.url=url
  /-- So is a domain that is inserted, and the scanner is sure where it is asked. -/
  insertable : ∀ d∈inserted, d.contains '.'=true ∧ d∉p.site.db.blocklistSeed ∧
    d∉p.site.db.whitelist ∧ ∃ v∈visits, d=urlToDomain checks v.url ∧
      (source.asksScanner=true → isSureScam threshold v.outcomes.classified=true)
  /-- Other rows are those that the scanner has listed while it was asked. -/
  rows : ∀ d∈q.site.db.blocklistSeed, d∈p.site.db.blocklistSeed ∨ d∈inserted ∨
    ∃ v∈visits, v.url∈asked ∧ listedByScanner checks v.outcomes v.url=some d
  /-- Nothing else changes. -/
  frame : Frame (fun d => ∃ url∈asked, d=extractDomain checks url) p.site q.site

/-- Nothing is accounted for by nothing, whatever is counted besides and however
long it takes. -/
theorem audit_wait (checks : NetlocChecks) (threshold : ℤ) (source : Source)
    (p : Pass) (seconds posts errors : ℕ) : Audit checks threshold source [] p
      {p with
        site := {p.site with now := p.site.now+seconds}
        stats := {p.stats with postsSeen := posts, errors := errors}} [] [] where
  sent := (List.append_nil _).symm
  insertions := (List.append_nil _).symm
  blocked := (Nat.zero_add _).le
  known := (Nat.add_comm _ _).le
  new := (Nat.add_comm _ _).le
  seen := Nat.le_add_right _ _
  asks := by
    rw [List.length_nil,Nat.zero_add]
    split <;> rfl
  askable := List.forall_mem_nil _
  insertable := List.forall_mem_nil _
  rows := fun d hd => .inl hd
  frame := ⟨fun _ _ hd => hd,fun _ _ => ⟨rfl,rfl⟩,rfl⟩

/-- Visits that are not made change nothing. -/
theorem Audit.more (h : Audit checks threshold source visits p q asked inserted)
    (others : List Visit) : Audit checks threshold source (visits++others) p q asked inserted :=
  {h with
    seen := by
      have hseen := h.seen
      rw [List.length_append]
      omega
    askable := by
      intro url hurl
      obtain ⟨hdot,hseed,hlisted,v,hv,heq⟩ := h.askable url hurl
      exact ⟨hdot,hseed,hlisted,v,List.mem_append_left _ hv,heq⟩
    insertable := by
      intro d hd
      obtain ⟨hdot,hseed,hlisted,v,hv,heq⟩ := h.insertable d hd
      exact ⟨hdot,hseed,hlisted,v,List.mem_append_left _ hv,heq⟩
    rows := by
      intro d hd
      refine (h.rows d hd).imp_right (Or.imp_right ?_)
      rintro ⟨v,hv,hasked,hlisted⟩
      exact ⟨v,List.mem_append_left _ hv,hasked,hlisted⟩}

/-- Two audits in a row. -/
theorem Audit.trans {visits' : List Visit} {last : Pass} {asked' inserted' : List Text}
    (h : Audit checks threshold source visits p q asked inserted)
    (h' : Audit checks threshold source visits' q last asked' inserted') :
    Audit checks threshold source (visits++visits') p last (asked++asked')
      (inserted++inserted') where
  sent := by rw [h'.sent,h.sent,List.append_assoc]
  insertions := by rw [h'.insertions,h.insertions,List.append_assoc]
  blocked := by
    have h1 := h.blocked
    have h2 := h'.blocked
    rw [List.length_append]
    omega
  known := by
    have h1 := h.known
    have h2 := h'.known
    omega
  new := by
    have h1 := h.new
    have h2 := h'.new
    omega
  seen := by
    have h1 := h.seen
    have h2 := h'.seen
    rw [List.length_append]
    omega
  asks := by
    have h1 := h.asks
    have h2 := h'.asks
    rw [List.length_append]
    split at h1
    · rename_i hasks
      rw [if_pos hasks] at h2 ⊢
      omega
    · rename_i hasks
      rw [if_neg hasks] at h2 ⊢
      omega
  askable := by
    have hwhite : q.site.db.whitelist=p.site.db.whitelist := by rw [h.frame.site]
    intro url hurl
    rcases List.mem_append.mp hurl with hurl | hurl
    · obtain ⟨hdot,hseed,hlisted,v,hv,heq⟩ := h.askable url hurl
      exact ⟨hdot,hseed,hlisted,v,List.mem_append_left _ hv,heq⟩
    · obtain ⟨hdot,hseed,hlisted,v,hv,heq⟩ := h'.askable url hurl
      exact ⟨hdot,mt h.frame.mem hseed,hwhite ▸ hlisted,v,List.mem_append_right _ hv,heq⟩
  insertable := by
    have hwhite : q.site.db.whitelist=p.site.db.whitelist := by rw [h.frame.site]
    intro d hd
    rcases List.mem_append.mp hd with hd | hd
    · obtain ⟨hdot,hseed,hlisted,v,hv,heq⟩ := h.insertable d hd
      exact ⟨hdot,hseed,hlisted,v,List.mem_append_left _ hv,heq⟩
    · obtain ⟨hdot,hseed,hlisted,v,hv,heq⟩ := h'.insertable d hd
      exact ⟨hdot,mt h.frame.mem hseed,hwhite ▸ hlisted,v,List.mem_append_right _ hv,heq⟩
  rows := by
    intro d hd
    rcases h'.rows d hd with hd | hd | ⟨v,hv,hasked,hlisted⟩
    · rcases h.rows d hd with hd | hd | ⟨v,hv,hasked,hlisted⟩
      · exact .inl hd
      · exact .inr (.inl (List.mem_append_left _ hd))
      · exact .inr (.inr ⟨v,List.mem_append_left _ hv,List.mem_append_left _ hasked,hlisted⟩)
    · exact .inr (.inl (List.mem_append_right _ hd))
    · exact .inr (.inr ⟨v,List.mem_append_right _ hv,List.mem_append_right _ hasked,hlisted⟩)
  frame := by
    refine (h.frame.mono ?_).trans (h'.frame.mono ?_)
    · rintro d ⟨url,hurl,hd⟩
      exact ⟨url,List.mem_append_left _ hurl,hd⟩
    · rintro d ⟨url,hurl,hd⟩
      exact ⟨url,List.mem_append_right _ hurl,hd⟩

/-- A visit counts its URL, and its domain as new where the scanner is asked or
the domain is blocked. -/
theorem stats_visitUrl (checks : NetlocChecks) (scanner : Resolver.Config) (threshold : ℤ)
    (source : Source) (v : Visit) (p : Pass) : ∃ new blocked,
      (visitUrl checks scanner threshold source v.sourcePost v.outcomes p v.url).1.stats=
        {p.stats with
          urlsSeen := p.stats.urlsSeen+1
          domainsNew := p.stats.domainsNew+new
          domainsBlocked := p.stats.domainsBlocked+blocked} ∧
      blocked≤new ∧ new≤1 ∧
      (if sends checks source v.outcomes p.site v.url then 1 else 0)=
        (if source.asksScanner then new else 0) ∧
      (if reachesInsert checks threshold source v.outcomes p.site v.url then 1 else 0)≤blocked := by
  rw [sends,reachesInsert]
  obtain ⟨hnot,hout,-⟩ | ⟨hdot,hknown,-,⟨hasks,hsure,hout⟩ | ⟨-,hout⟩⟩ :=
    visitUrl_cases checks scanner threshold source v.sourcePost v.url v.outcomes p
  · have hstays : ((urlToDomain checks v.url).contains '.' &&
        alreadyKnown v.outcomes p.site (urlToDomain checks v.url)==some false)=false := by
      rw [Bool.eq_false_iff,ne_eq,Bool.and_eq_true,beq_iff_eq]
      exact hnot
    refine ⟨0,0,by rw [hout]; rfl,Nat.le_refl 0,Nat.zero_le 1,?_,?_⟩
    · rw [hstays,Bool.false_and,ite_self]
      rfl
    · rw [hstays,Bool.false_and,Bool.false_and]
      exact Nat.le_refl 0
  · refine ⟨1,0,by rw [hout]; rfl,Nat.zero_le 1,Nat.le_refl 1,?_,?_⟩
    · rw [hdot,hknown,hasks]
      rfl
    · rw [hasks,hsure,Bool.not_true,Bool.false_or,Bool.and_false,Bool.false_and]
      exact Nat.le_refl 0
  · refine ⟨1,1,?_,Nat.le_refl 1,Nat.le_refl 1,?_,?_⟩
    · rw [hout,(promote_frame _ _ _ _ _).2.2.2]
      cases source.asksScanner <;> rfl
    · rw [hdot,hknown]
      cases source.asksScanner <;> rfl
    · split
      · exact Nat.le_refl 1
      · exact Nat.zero_le 1

/-- A URL that is sent to the scanner, and a domain that is inserted, has a dot
and is on no list. -/
theorem open_of_visit (threshold : ℤ) {o : Outcomes} {s : Deployment} {url : Text}
    (h : sends checks source o s url=true ∨ reachesInsert checks threshold source o s url=true) :
    (urlToDomain checks url).contains '.'=true ∧ urlToDomain checks url∉s.db.blocklistSeed ∧
      urlToDomain checks url∉s.db.whitelist := by
  have hboth : (urlToDomain checks url).contains '.'=true ∧
      alreadyKnown o s (urlToDomain checks url)=some false := by
    rcases h with h | h
    · rw [sends,Bool.and_eq_true,Bool.and_eq_true,beq_iff_eq] at h
      exact h.1
    · rw [reachesInsert,Bool.and_eq_true,Bool.and_eq_true,Bool.and_eq_true,beq_iff_eq] at h
      exact h.1.1
  exact ⟨hboth.1,notMem_of_alreadyKnown hboth.2⟩

/-- A visit is accounted for. -/
theorem audit_visitUrl (checks : NetlocChecks) (scanner : Resolver.Config) (threshold : ℤ)
    (source : Source) (v : Visit) (p : Pass) :
    Audit checks threshold source [v] p
      (visitUrl checks scanner threshold source v.sourcePost v.outcomes p v.url).1
      (if sends checks source v.outcomes p.site v.url then [v.url] else [])
      (if reachesInsert checks threshold source v.outcomes p.site v.url then
        [urlToDomain checks v.url] else []) := by
  obtain ⟨hsent,hinserted,-⟩ :=
    @visitUrl_effects checks scanner threshold source v.sourcePost v.url v.outcomes p
  obtain ⟨new,blocked,hstats,hblocked,hnew,hasks,hinserts⟩ :=
    stats_visitUrl checks scanner threshold source v p
  have hlength (c : Bool) (x : Text) : (if c then [x] else []).length=if c then 1 else 0 := by
    cases c <;> rfl
  constructor
  case sent => exact hsent
  case insertions => exact hinserted
  case blocked =>
    rw [hlength,hstats]
    dsimp only
    omega
  case known =>
    rw [hstats]
    dsimp only
    omega
  case new =>
    rw [hstats]
    dsimp only
    omega
  case seen =>
    rw [hstats,List.length_singleton]
  case asks =>
    rw [hlength,hasks,hstats]
    cases source.asksScanner with
    | false => exact Nat.zero_add _
    | true => exact Nat.add_comm _ _
  case askable =>
    intro url hurl
    split at hurl
    · rename_i hsends
      rw [List.mem_singleton.mp hurl]
      obtain ⟨hdot,hseed,hwhite⟩ := open_of_visit threshold (.inl hsends)
      exact ⟨hdot,hseed,hwhite,v,List.mem_cons_self,rfl⟩
    · cases hurl
  case insertable =>
    intro d hd
    split at hd
    · rename_i hreach
      rw [List.mem_singleton.mp hd]
      obtain ⟨hdot,hseed,hwhite⟩ := open_of_visit threshold (.inr hreach)
      refine ⟨hdot,hseed,hwhite,v,List.mem_cons_self,rfl,fun hasks => ?_⟩
      rw [reachesInsert,Bool.and_eq_true,Bool.and_eq_true,hasks,Bool.not_true,
        Bool.false_or] at hreach
      exact hreach.1.2
    · cases hd
  case rows =>
    intro d hd
    rcases mem_seed_visitUrl.mp hd with hd | ⟨hsends,hlisted⟩ | ⟨hreach,rfl⟩
    · exact .inl hd
    · rw [if_pos hsends]
      exact .inr (.inr ⟨v,List.mem_cons_self,List.mem_cons_self,hlisted⟩)
    · rw [if_pos hreach]
      exact .inr (.inl List.mem_cons_self)
  case frame =>
    refine frame_visitUrl.mono ?_
    rintro d ⟨hsends,rfl⟩
    rw [if_pos hsends]
    exact ⟨v.url,List.mem_cons_self,rfl⟩

/-- A loop over URLs is accounted for. -/
theorem audit_visitUrls (checks : NetlocChecks) (scanner : Resolver.Config) (threshold : ℤ)
    (source : Source) (visits : List Visit) (p : Pass) :
    ∃ asked inserted, Audit checks threshold source visits p
      (visitUrls checks scanner threshold source visits p).1 asked inserted := by
  induction visits generalizing p with
  | nil => exact ⟨[],[],audit_wait checks threshold source p 0 p.stats.postsSeen p.stats.errors⟩
  | cons v visits ih =>
    have hfirst := audit_visitUrl checks scanner threshold source v p
    rw [visitUrls]
    split
    · obtain ⟨asked,inserted,hrest⟩ := ih (visitUrl checks scanner threshold source v.sourcePost
        v.outcomes p v.url).1
      exact ⟨_,_,hfirst.trans hrest⟩
    · exact ⟨_,_,hfirst.more visits⟩

/-- It counts neither posts nor errors. -/
theorem stats_visitUrls (checks : NetlocChecks) (scanner : Resolver.Config) (threshold : ℤ)
    (source : Source) (visits : List Visit) (p : Pass) :
    (visitUrls checks scanner threshold source visits p).1.stats.postsSeen=p.stats.postsSeen ∧
    (visitUrls checks scanner threshold source visits p).1.stats.errors=p.stats.errors := by
  induction visits generalizing p with
  | nil => exact ⟨rfl,rfl⟩
  | cons v visits ih =>
    obtain ⟨new,blocked,hstats,-⟩ := stats_visitUrl checks scanner threshold source v p
    rw [visitUrls]
    split
    · have hrest := ih (visitUrl checks scanner threshold source v.sourcePost v.outcomes p v.url).1
      rw [hstats] at hrest
      exact hrest
    · rw [hstats]
      exact ⟨rfl,rfl⟩

end Audits

section Reports

variable {π : Type} {w : World π} {checks : NetlocChecks} {scanner : Resolver.Config}
  {threshold : ℤ} {source : Source} {visitsOf : π → (Text → Outcomes) → List Visit} {cost : ℕ}
  {search : Searched π}

/-- A source whose requests leave everything alone, but for so many of them, and
whose posts are looked at for their URLs. -/
structure Sound (checks : NetlocChecks) (scanner : Resolver.Config) (threshold : ℤ)
    (source : Source) (visitsOf : π → (Text → Outcomes) → List Visit) (cost : ℕ)
    (search : Searched π) : Prop where
  /-- A request changes nothing else. -/
  ask_eq : ∀ query target after r, (search.ask query target after r).1=
    {r with requests := (search.ask query target after r).1.requests}
  /-- A page takes so many requests. -/
  ask_requests : ∀ query target after r,
    (search.ask query target after r).1.requests≤ r.requests+cost
  /-- Handling a post is a loop over its URLs. -/
  handle_eq : ∀ post (o : Text → Outcomes) p,
    search.handle post o p=visitUrls checks scanner threshold source (visitsOf post o) p

/-- The visits that handled posts stand for, the calls for each post having their
own outcomes. -/
def visitsFor (visitsOf : π → (Text → Outcomes) → List Visit) (w : World π) (handled : List π) :
    List Visit :=
  handled.zipIdx.flatMap fun e => visitsOf e.1 (w.outcomes e.2)

/-- What a run has done with the stores and its counts when it is here. -/
structure Accounts (checks : NetlocChecks) (threshold : ℤ) (source : Source)
    (visitsOf : π → (Text → Outcomes) → List Visit) (w : World π) (site : Deployment)
    (r : Run π) : Prop where
  /-- The counts stand for what is done over the visits of the posts handled. -/
  audit : Audit checks threshold source (visitsFor visitsOf w r.handled) ⟨site,{},[],[]⟩ r.pass
    r.pass.sent r.pass.inserted
  /-- Posts are counted as they are handled. -/
  posts : r.pass.stats.postsSeen=r.handled.length

/-- A run that starts has done nothing. -/
theorem accounts_start (site : Deployment) (readings requests : ℕ) :
    Accounts checks threshold source visitsOf w site ⟨⟨site,{},[],[]⟩,readings,requests,[]⟩ where
  audit := audit_wait checks threshold source ⟨site,{},[],[]⟩ 0 0 0
  posts := rfl

/-- Errors, readings and requests are no part of the accounts. -/
theorem Accounts.counters {site : Deployment} {r : Run π}
    (h : Accounts checks threshold source visitsOf w site r) (errors readings requests : ℕ) :
    Accounts checks threshold source visitsOf w site
      ⟨{r.pass with stats := {r.pass.stats with errors := errors}},readings,requests,
        r.handled⟩ where
  audit := {h.audit with}
  posts := h.posts

/-- A post that is counted and whose URLs are visited is accounted for. -/
theorem Accounts.visitUrls {site : Deployment} {r : Run π}
    (h : Accounts checks threshold source visitsOf w site r) (scanner : Resolver.Config) (post : π)
    (seconds readings : ℕ) :
    Accounts checks threshold source visitsOf w site
      ⟨(ScrapedPosts.visitUrls checks scanner threshold source
          (visitsOf post (w.outcomes r.handled.length)) {r.pass with
            site := {r.pass.site with now := r.pass.site.now+seconds}
            stats := {r.pass.stats with postsSeen := r.pass.stats.postsSeen+1}}).1,
        readings,r.requests,r.handled++[post]⟩ := by
  have hvisits : visitsFor visitsOf w (r.handled++[post])=
      visitsFor visitsOf w r.handled++([]++visitsOf post (w.outcomes r.handled.length)) := by
    rw [visitsFor,visitsFor,List.zipIdx_append,List.flatMap_append]
    simp
  have hcount := audit_wait checks threshold source r.pass seconds (r.pass.stats.postsSeen+1)
    r.pass.stats.errors
  have hposts := (stats_visitUrls checks scanner threshold source
    (visitsOf post (w.outcomes r.handled.length)) {r.pass with
      site := {r.pass.site with now := r.pass.site.now+seconds}
      stats := {r.pass.stats with postsSeen := r.pass.stats.postsSeen+1}}).1
  obtain ⟨asked,inserted,haudit⟩ := audit_visitUrls checks scanner threshold source
    (visitsOf post (w.outcomes r.handled.length)) {r.pass with
      site := {r.pass.site with now := r.pass.site.now+seconds}
      stats := {r.pass.stats with postsSeen := r.pass.stats.postsSeen+1}}
  have hall := h.audit.trans (hcount.trans haudit)
  refine ⟨?_,?_⟩
  · rw [hvisits]
    have hsent := hall.sent
    have hinserted := hall.insertions
    rw [List.nil_append] at hsent hinserted
    rw [← hsent,← hinserted] at hall
    exact hall
  · rw [List.length_append,List.length_singleton]
    exact hposts.trans (congrArg (·+1) h.posts)

/-- A turn of the loop over posts keeps the accounts, counts no error and sends
no request. -/
theorem Sound.visitPost (h : Sound checks scanner threshold source visitsOf cost search)
    {site : Deployment} (deadline : ℤ) (post : π) {r : Run π}
    (hr : Accounts checks threshold source visitsOf w site r) :
    Accounts checks threshold source visitsOf w site
      (ScrapeRuns.visitPost w search.handle deadline post r).1 ∧
    (ScrapeRuns.visitPost w search.handle deadline post r).1.requests=r.requests ∧
    (ScrapeRuns.visitPost w search.handle deadline post r).1.pass.stats.errors=
      r.pass.stats.errors := by
  rw [ScrapeRuns.visitPost]
  split
  · exact ⟨hr.counters _ _ _,rfl,rfl⟩
  · dsimp only
    rw [h.handle_eq]
    exact ⟨hr.visitUrls scanner post _ _,rfl,(stats_visitUrls checks scanner threshold source
      (visitsOf post (w.outcomes r.handled.length)) _).2⟩

/-- A request for a page keeps the accounts. -/
theorem Sound.ask (h : Sound checks scanner threshold source visitsOf cost search)
    {site : Deployment} (query : Text) (target after : Option Text) {r : Run π}
    (hr : Accounts checks threshold source visitsOf w site r) :
    Accounts checks threshold source visitsOf w site (search.ask query target after r).1 ∧
    (search.ask query target after r).1.requests≤ r.requests+cost ∧
    (search.ask query target after r).1.pass.stats.errors=r.pass.stats.errors := by
  have hrequests := h.ask_requests query target after r
  rw [h.ask_eq query target after r]
  exact ⟨hr.counters _ _ _,hrequests,rfl⟩

/-- The searches for a keyword keep the accounts and count no error; each one
sends no more requests than its pages take. -/
theorem Sound.searchTargets (h : Sound checks scanner threshold source visitsOf cost search)
    {site : Deployment} (deadline : ℤ) (query : Text) (targets : List (Option Text)) {r : Run π}
    (hr : Accounts checks threshold source visitsOf w site r) :
    Accounts checks threshold source visitsOf w site
      (ScrapeRuns.searchTargets w search deadline query targets r).1 ∧
    (ScrapeRuns.searchTargets w search deadline query targets r).1.requests≤
      r.requests+targets.length*(search.maxPages*cost) ∧
    (ScrapeRuns.searchTargets w search deadline query targets r).1.pass.stats.errors=
      r.pass.stats.errors := by
  induction targets generalizing r with
  | nil => exact ⟨hr,Nat.le_add_right _ _,rfl⟩
  | cons target targets ih =>
    have hask (pages : ℕ) (after : Option Text) (s : Run π)
        (hs : Accounts checks threshold source visitsOf w site s ∧
          s.requests+(pages+1)*cost≤ r.requests+search.maxPages*cost ∧
          s.pass.stats.errors=r.pass.stats.errors) :
        Accounts checks threshold source visitsOf w site (search.ask query target after s).1 ∧
          (search.ask query target after s).1.requests+pages*cost≤
            r.requests+search.maxPages*cost ∧
          (search.ask query target after s).1.pass.stats.errors=r.pass.stats.errors := by
      obtain ⟨haccounts,hrequests,herrors⟩ := h.ask query target after hs.1
      have hcost : (pages+1)*cost=pages*cost+cost := Nat.succ_mul pages cost
      have hbound := hs.2.1
      exact ⟨haccounts,by omega,herrors.trans hs.2.2⟩
    have hvisit (pages : ℕ) (post : π) (s : Run π)
        (hs : Accounts checks threshold source visitsOf w site s ∧
          s.requests+pages*cost≤ r.requests+search.maxPages*cost ∧
          s.pass.stats.errors=r.pass.stats.errors) :
        Accounts checks threshold source visitsOf w site
            (ScrapeRuns.visitPost w search.handle deadline post s).1 ∧
          (ScrapeRuns.visitPost w search.handle deadline post s).1.requests+pages*cost≤
            r.requests+search.maxPages*cost ∧
          (ScrapeRuns.visitPost w search.handle deadline post s).1.pass.stats.errors=
            r.pass.stats.errors := by
      obtain ⟨haccounts,hrequests,herrors⟩ := h.visitPost deadline post hs.1
      exact ⟨haccounts,hrequests ▸ hs.2.1,herrors.trans hs.2.2⟩
    have hwalk := walkPages_keeps (P := fun pages s =>
      Accounts checks threshold source visitsOf w site s ∧
        s.requests+pages*cost≤ r.requests+search.maxPages*cost ∧
        s.pass.stats.errors=r.pass.stats.errors) hask hvisit search.maxPages none
      ⟨hr,Nat.le_refl _,rfl⟩
    obtain ⟨left,haccounts,hrequests,herrors⟩ := hwalk
    have hlength : (target::targets).length*(search.maxPages*cost)=
        targets.length*(search.maxPages*cost)+search.maxPages*cost := Nat.succ_mul _ _
    rw [ScrapeRuns.searchTargets]
    split
    · obtain ⟨haccounts',hrequests',herrors'⟩ := ih haccounts
      exact ⟨haccounts',by omega,herrors'.trans herrors⟩
    · exact ⟨haccounts,by omega,herrors⟩
    · exact ⟨haccounts,by omega,herrors⟩

/-- The loop over the keywords keeps the accounts; a keyword makes for one error
at most, and for the requests of its searches. -/
theorem Sound.runKeywords (h : Sound checks scanner threshold source visitsOf cost search)
    {site : Deployment} (deadline : ℤ) (keywords : List Text) {r : Run π}
    (hr : Accounts checks threshold source visitsOf w site r) :
    Accounts checks threshold source visitsOf w site
      (ScrapeRuns.runKeywords w search deadline keywords r) ∧
    (ScrapeRuns.runKeywords w search deadline keywords r).requests≤
      r.requests+keywords.length*(search.targets.length*(search.maxPages*cost)) ∧
    (ScrapeRuns.runKeywords w search deadline keywords r).pass.stats.errors≤
      r.pass.stats.errors+keywords.length := by
  induction keywords generalizing r with
  | nil => exact ⟨hr,Nat.le_add_right _ _,Nat.le_refl _⟩
  | cons keyword keywords ih =>
    have hread : Accounts checks threshold source visitsOf w site
        {r with readings := r.readings+1} := hr.counters r.pass.stats.errors _ _
    have hlength : (keyword::keywords).length*(search.targets.length*(search.maxPages*cost))=
        keywords.length*(search.targets.length*(search.maxPages*cost))+
          search.targets.length*(search.maxPages*cost) := Nat.succ_mul _ _
    have hsearched := h.searchTargets deadline keyword search.targets hread
    rw [ScrapeRuns.runKeywords]
    dsimp only at hsearched ⊢
    generalize ScrapeRuns.searchTargets w search deadline keyword search.targets _=out
      at hsearched ⊢
    obtain ⟨haccounts,hrequests,herrors⟩ := hsearched
    split
    · exact ⟨hread,Nat.le_add_right _ _,Nat.le_add_right _ _⟩
    · split
      · have hcounted : Accounts checks threshold source visitsOf w site out.1.countError :=
          haccounts.counters _ _ _
        have hcount : out.1.countError.pass.stats.errors=out.1.pass.stats.errors+1 := rfl
        have hsame : out.1.countError.requests=out.1.requests := rfl
        obtain ⟨haccounts',hrequests',herrors'⟩ := ih hcounted
        refine ⟨haccounts',?_,?_⟩
        · omega
        · rw [List.length_cons]
          omega
      · obtain ⟨haccounts',hrequests',herrors'⟩ := ih haccounts
        refine ⟨haccounts',?_,?_⟩
        · omega
        · rw [List.length_cons]
          omega

/-- A run has the accounts of its loop over the keywords. -/
theorem Sound.runFor (h : Sound checks scanner threshold source visitsOf cost search) (w : World π)
    (minutes : ℤ) (keywords : List Text) (site : Deployment) :
    Accounts checks threshold source visitsOf w site
      (ScrapeRuns.runFor w search minutes keywords site) ∧
    (ScrapeRuns.runFor w search minutes keywords site).requests≤
      keywords.length*(search.targets.length*(search.maxPages*cost)) ∧
    (ScrapeRuns.runFor w search minutes keywords site).pass.stats.errors≤ keywords.length := by
  obtain ⟨haccounts,hrequests,herrors⟩ := h.runKeywords (w.clock 0+minutes*60) keywords
    (accounts_start site 1 0)
  rw [Nat.zero_add] at hrequests herrors
  exact ⟨haccounts,hrequests,herrors⟩

end Reports

section Sources

variable {π : Type} {w : World π}

/-- However many attempts it takes, a GET changes nothing but the requests. -/
theorem threadsGet_requests (request : Request) (attempts : ℕ) (r : Run π) :
    (threadsGet w request attempts r).1=
      {r with requests := (threadsGet w request attempts r).1.requests} ∧
    (threadsGet w request attempts r).1.requests≤ r.requests+attempts := by
  induction attempts generalizing r with
  | zero => exact ⟨rfl,Nat.le_refl _⟩
  | succ attempts ih =>
    rw [threadsGet]
    cases w.fetch r.requests request with
    | transportError =>
      obtain ⟨heq,hle⟩ := ih {r with requests := r.requests+1}
      dsimp only at heq hle ⊢
      exact ⟨heq,by omega⟩
    | otherError => exact ⟨rfl,by dsimp only; omega⟩
    | response => exact ⟨rfl,by dsimp only; omega⟩

/-- The visits of `_handle_post`. -/
def threadsVisits (checks : NetlocChecks) (raw : RawThreadsPost) (o : Text → Outcomes) :
    List Visit :=
  (raw.post.urls checks).map fun url => ⟨url,raw.post.permalink,o url⟩

/-- The visits of `_handle_reddit_post`. -/
def redditVisits (checks : NetlocChecks) (raw : RawRedditPost) (o : Text → Outcomes) :
    List Visit :=
  (raw.post.urls checks).map fun url => ⟨url,raw.post.permalink,o url⟩

/-- The Threads search, with three attempts for a page. -/
theorem threadsSearch_sound (checks : NetlocChecks) (scanner : Resolver.Config) (cfg : Config)
    (given : Overrides) (w : World RawThreadsPost) :
    Sound checks scanner cfg.confidenceThreshold .threads (threadsVisits checks) 3
      (threadsSearch checks scanner cfg given w) where
  ask_eq := fun query _ after r => (threadsGet_requests ⟨query,none,after⟩ 3 r).1
  ask_requests := fun query _ after r => (threadsGet_requests ⟨query,none,after⟩ 3 r).2
  handle_eq := fun _ _ _ => rfl

/-- The Reddit search, with one request for a page. -/
theorem redditSearch_sound (checks : NetlocChecks) (scanner : Resolver.Config) (cfg : Config)
    (given : Overrides) (w : World RawRedditPost) :
    Sound checks scanner cfg.confidenceThreshold .reddit (redditVisits checks) 1
      (redditSearch checks scanner cfg given w) where
  ask_eq := fun _ _ _ _ => rfl
  ask_requests := fun _ _ _ _ => Nat.le_refl _
  handle_eq := fun _ _ _ => rfl

end Sources

section Newest

variable {w : World RawRedditPost} {checks : NetlocChecks}
  {listing : Text → Option Text → ℕ → List RawRedditPost} {query : Text} {target : Option Text}

/-- `name` of a post, which is the cursor behind it. -/
def RawRedditPost.fullname (raw : RawRedditPost) : Text := "t3_".toList++raw.id

/-- A server that lists what it finds for each search newest first, in pages of
25, and answers every request; more is found as requests go on. -/
structure Lists (w : World RawRedditPost) (listing : Text → Option Text → ℕ →
    List RawRedditPost) : Prop where
  /-- A page of the listing, and the cursor behind it unless it is the last. -/
  page : ∀ n query target after, w.fetch n ⟨query,target,after⟩=
    let rest := behind RawRedditPost.fullname after (listing query target n)
    .response 200 (some (rest.take 25,
      if rest.length≤25 then none
      else ((rest.take 25).getLast?).map RawRedditPost.fullname))
  /-- What is new comes in front. -/
  newer : ∀ query target n, ∃ new, listing query target (n+1)=new++listing query target n
  /-- No post is listed twice. -/
  nodup : ∀ query target n, ((listing query target n).map RawRedditPost.fullname).Nodup

/-- The walk of the search is one over such a listing. -/
theorem Lists.listed (h : Lists w listing) (query : Text) (target : Option Text)
    (handle : RawRedditPost → (Text → Outcomes) → Pass → Pass×Bool) (deadline : ℤ) :
    Listed RawRedditPost.fullname 25
      (fun r : Run RawRedditPost => listing query target r.requests) Run.handled
      (redditAsk w query target) (visitPost w handle deadline) where
  limit_pos := by decide
  nodup := fun r => h.nodup query target r.requests
  answer := by
    intro after r
    have hcursor (items : List RawRedditPost) :
        nextCursor (items.getLast?.map RawRedditPost.fullname)=
          items.getLast?.map RawRedditPost.fullname := by
      cases items.getLast? <;> rfl
    rw [redditAsk,h.page]
    dsimp only
    rw [if_neg (by decide),pageBehind]
    split
    · rfl
    · rw [hcursor]
  ask_listing := fun _ r => h.newer query target r.requests
  ask_seen := fun _ _ => rfl
  visit_listing := by
    intro raw r
    refine ⟨[],?_⟩
    rw [visitPost]
    split <;> rfl
  visit_seen := by
    intro raw r hnot
    by_cases hlate : deadline≤w.clock r.readings
    · rw [visitPost,if_pos hlate] at hnot
      exact absurd rfl hnot
    · rw [visitPost,if_neg hlate]
  stopped_seen := by
    intro raw r hstop
    by_cases hlate : deadline≤w.clock r.readings
    · rw [visitPost,if_pos hlate]
    · rw [visitPost,if_neg hlate] at hstop
      dsimp only at hstop
      split at hstop <;> cases hstop

/-- The newest posts of a search at some request, as many as its pages hold. -/
def newest (listing : Text → Option Text → ℕ → List RawRedditPost) (pages : ℕ)
    (searched : Text×Option Text) (n : ℕ) : List RawRedditPost :=
  (listing searched.1 searched.2 n).take (pages*25)

/-- A search of a run. -/
structure SearchRun where
  /-- Keyword and subreddit. -/
  searched : Text×Option Text
  /-- The run when it begins. -/
  before : Run RawRedditPost
  /-- The run when it is left. -/
  after : Run RawRedditPost
  /-- How it is left. -/
  outcome : Outcome

/-- The posts that it handles. -/
def SearchRun.posts (s : SearchRun) : List RawRedditPost :=
  s.after.handled.drop s.before.handled.length

section Searches

variable (w : World RawRedditPost) (search : Searched RawRedditPost) (deadline : ℤ)

/-- The searches for a keyword that a run gets to. -/
def targetRuns (query : Text) : List (Option Text) → Run RawRedditPost → List SearchRun
  | [],_ => []
  | target::targets,r =>
    let out := walkPages (search.ask query target) (visitPost w search.handle deadline)
      search.maxPages none r
    ⟨(query,target),r,out.1,out.2⟩::if out.2=.done then targetRuns query targets out.1 else []

/-- The searches that a run gets to. -/
def searchRuns : List Text → Run RawRedditPost → List SearchRun
  | [],_ => []
  | keyword::keywords,r =>
    let read := {r with readings := r.readings+1}
    if deadline≤w.clock r.readings then []
    else
      let out := searchTargets w search deadline keyword search.targets read
      targetRuns w search deadline keyword search.targets read++
        searchRuns keywords (if out.2=.raised then out.1.countError else out.1)

end Searches

/-- A search handles a first part of the newest posts of when it began, none
twice; all that its pages hold if it is not broken off. -/
structure HandlesNewest (listing : Text → Option Text → ℕ → List RawRedditPost) (pages : ℕ)
    (s : SearchRun) : Prop where
  /-- What is handled stays handled. -/
  handled : s.after.handled=s.before.handled++s.posts
  /-- The posts are the first ones of the listing at the first request. -/
  first : s.posts <+: newest listing pages s.searched s.before.requests
  /-- All of them are handled if the search gets to its end. -/
  whole : s.outcome=.done → s.posts=newest listing pages s.searched s.before.requests
  /-- No post is handled twice. -/
  once : (s.posts.map RawRedditPost.fullname).Nodup

/-- What a run handles over its searches, in their order: the newest posts for
each one, and under some condition for every one. -/
structure HandledFor (listing : Text → Option Text → ℕ → List RawRedditPost) (pages : ℕ)
    (searches : List (Text×Option Text)) (whole : Prop) (runs : List SearchRun)
    (posts : List RawRedditPost) : Prop where
  /-- The searches come in their order. -/
  order : (runs.map SearchRun.searched).Sublist searches
  /-- The posts are those of the searches. -/
  posts : posts=runs.flatMap SearchRun.posts
  /-- Each search handles the newest posts. -/
  newest : ∀ s∈runs, HandlesNewest listing pages s
  /-- Under the condition there are all searches, and each gets to its end. -/
  whole : whole → runs.map SearchRun.searched=searches ∧ ∀ s∈runs, s.outcome=.done

/-- What is handled for some searches, and then for others. -/
theorem HandledFor.append {pages : ℕ} {first second : List (Text×Option Text)}
    {whole whole' : Prop} {runs runs' : List SearchRun} {posts posts' : List RawRedditPost}
    (h : HandledFor listing pages first whole runs posts)
    (h' : HandledFor listing pages second whole' runs' posts') :
    HandledFor listing pages (first++second) (whole ∧ whole') (runs++runs') (posts++posts') where
  order := by
    rw [List.map_append]
    exact h.order.append h'.order
  posts := by rw [h.posts,h'.posts,List.flatMap_append]
  newest := List.forall_mem_append.mpr ⟨h.newest,h'.newest⟩
  whole := by
    rintro ⟨hw,hw'⟩
    obtain ⟨hall,hdone⟩ := h.whole hw
    obtain ⟨hall',hdone'⟩ := h'.whole hw'
    rw [List.map_append,hall,hall']
    exact ⟨rfl,List.forall_mem_append.mpr ⟨hdone,hdone'⟩⟩

/-- What is handled when none of some searches is begun. -/
theorem HandledFor.skipped {pages : ℕ} {searches : List (Text×Option Text)} {whole : Prop}
    (h : whole → searches=[]) : HandledFor listing pages searches whole [] [] where
  order := List.nil_sublist _
  posts := rfl
  newest := List.forall_mem_nil _
  whole := fun hw => ⟨(h hw).symm,List.forall_mem_nil _⟩

/-- What a single search handles. -/
theorem HandledFor.single {pages : ℕ} {s : SearchRun} (h : HandlesNewest listing pages s) :
    HandledFor listing pages [s.searched] (s.outcome=.done) [s] s.posts where
  order := List.Sublist.refl _
  posts := (List.flatMap_singleton _ _).symm
  newest := List.forall_mem_singleton.mpr h
  whole := fun hdone => ⟨rfl,List.forall_mem_singleton.mpr hdone⟩

/-- What is the whole under some condition is so under a stronger one. -/
theorem HandledFor.mono {pages : ℕ} {searches : List (Text×Option Text)} {whole whole' : Prop}
    {runs : List SearchRun} {posts : List RawRedditPost}
    (h : HandledFor listing pages searches whole runs posts) (himp : whole' → whole) :
    HandledFor listing pages searches whole' runs posts :=
  {h with whole := fun hw => h.whole (himp hw)}

/-- A search handles the newest posts of when it begins. -/
theorem Lists.handlesNewest (h : Lists w listing) (query : Text) (target : Option Text)
    (handle : RawRedditPost → (Text → Outcomes) → Pass → Pass×Bool) (deadline : ℤ) (pages : ℕ)
    (r : Run RawRedditPost) :
    let out := walkPages (redditAsk w query target) (visitPost w handle deadline) pages none r
    HandlesNewest listing pages ⟨(query,target),r,out.1,out.2⟩ := by
  intro out
  obtain ⟨part,hpart,hhandled,hdone⟩ := (h.listed query target handle deadline).walk pages r
  have hposts : SearchRun.posts ⟨(query,target),r,out.1,out.2⟩=part := by
    rw [SearchRun.posts]
    dsimp only
    rw [hhandled,List.drop_left]
  constructor
  case handled => rw [hposts]; exact hhandled
  case first => rw [hposts]; exact hpart
  case whole => rw [hposts]; exact hdone
  case once =>
    rw [hposts]
    exact (h.nodup query target r.requests).sublist
      ((hpart.sublist.trans (List.take_sublist _ _)).map _)

/-- The searches for a keyword handle the newest posts, one subreddit after
another. -/
theorem Lists.searchTargets (h : Lists w listing) {search : Searched RawRedditPost}
    (hask : search.ask=redditAsk w) (deadline : ℤ) (query : Text)
    (targets : List (Option Text)) (r : Run RawRedditPost) :
    ∃ posts, (ScrapeRuns.searchTargets w search deadline query targets r).1.handled=
        r.handled++posts ∧
      HandledFor listing search.maxPages (targets.map fun target => (query,target))
        ((ScrapeRuns.searchTargets w search deadline query targets r).2=.done)
        (targetRuns w search deadline query targets r) posts := by
  induction targets generalizing r with
  | nil => exact ⟨[],(List.append_nil _).symm,.skipped fun _ => rfl⟩
  | cons target targets ih =>
    have hnewest := h.handlesNewest query target search.handle deadline search.maxPages r
    rw [ScrapeRuns.searchTargets,targetRuns,hask,List.map_cons,
      ← List.singleton_append (x := (query,target))]
    generalize walkPages (redditAsk w query target) (visitPost w search.handle deadline)
      search.maxPages none r=out at hnewest ⊢
    have hsingle := HandledFor.single hnewest
    have hskipped : HandledFor listing search.maxPages
      (targets.map fun target => (query,target)) False [] [] := .skipped False.elim
    cases hout : out.2 with
    | done =>
      obtain ⟨posts,hposts,hrest⟩ := ih out.1
      rw [hout] at hsingle
      refine ⟨_,?_,(hsingle.append hrest).mono fun hend => ⟨rfl,hend⟩⟩
      dsimp only
      rw [hposts,hnewest.handled,List.append_assoc]
      rfl
    | stopped =>
      rw [hout] at hsingle
      refine ⟨_,?_,(hsingle.append hskipped).mono fun hend => ?_⟩
      · rw [List.append_nil]
        exact hnewest.handled
      · rw [hout] at hend
        cases hend
    | raised =>
      rw [hout] at hsingle
      refine ⟨_,?_,(hsingle.append hskipped).mono fun hend => ?_⟩
      · rw [List.append_nil]
        exact hnewest.handled
      · rw [hout] at hend
        cases hend

/-- A run handles the newest posts of its searches, keyword by keyword; all of
them when there is time and no search raises. -/
theorem Lists.runKeywords (h : Lists w listing) {search : Searched RawRedditPost}
    (hask : search.ask=redditAsk w) (deadline : ℤ) (keywords : List Text)
    (r : Run RawRedditPost) :
    ∃ posts, (ScrapeRuns.runKeywords w search deadline keywords r).handled=r.handled++posts ∧
      HandledFor listing search.maxPages
        (keywords.flatMap fun keyword => search.targets.map fun target => (keyword,target))
        ((∀ n, w.clock n<deadline) ∧ ∀ query r,
          (ScrapeRuns.searchTargets w search deadline query search.targets r).2=.done)
        (searchRuns w search deadline keywords r) posts := by
  induction keywords generalizing r with
  | nil => exact ⟨[],(List.append_nil _).symm,.skipped fun _ => rfl⟩
  | cons keyword keywords ih =>
    rw [ScrapeRuns.runKeywords,searchRuns,List.flatMap_cons]
    dsimp only
    by_cases hlate : deadline≤w.clock r.readings
    · rw [if_pos hlate,if_pos hlate]
      refine ⟨[],(List.append_nil _).symm,.skipped fun hwhole => ?_⟩
      have htime := hwhole.1 r.readings
      omega
    · rw [if_neg hlate,if_neg hlate]
      obtain ⟨posts,hposts,hsearched⟩ := h.searchTargets hask deadline keyword search.targets
        {r with readings := r.readings+1}
      generalize hout : ScrapeRuns.searchTargets w search deadline keyword search.targets _=out
        at hposts hsearched ⊢
      have hwhole (hw : (∀ n, w.clock n<deadline) ∧ ∀ query r,
          (ScrapeRuns.searchTargets w search deadline query search.targets r).2=.done) :
          out.2=.done := hout ▸ hw.2 _ _
      split
      · obtain ⟨posts',hposts',hrest⟩ := ih out.1.countError
        refine ⟨posts++posts',?_,(hsearched.append hrest).mono fun hw => ⟨hwhole hw,hw⟩⟩
        rw [hposts']
        change out.1.handled++posts'=_
        rw [hposts,List.append_assoc]
      · obtain ⟨posts',hposts',hrest⟩ := ih out.1
        refine ⟨posts++posts',?_,(hsearched.append hrest).mono fun hw => ⟨hwhole hw,hw⟩⟩
        rw [hposts',hposts,List.append_assoc]

/-- The searches for a keyword get to their end when each of them does. -/
theorem searchTargets_done {π : Type} {w : World π} {search : Searched π} {deadline : ℤ}
    (hwalk : ∀ target r, (walkPages (search.ask query target)
      (visitPost w search.handle deadline) search.maxPages none r).2=.done)
    (targets : List (Option Text)) (r : Run π) :
    (searchTargets w search deadline query targets r).2=.done := by
  induction targets generalizing r with
  | nil => rfl
  | cons target targets ih =>
    rw [searchTargets,hwalk target r]
    exact ih _

/-- The visits complete when the stores answer. -/
theorem visitUrls_completes (checks : NetlocChecks) (scanner : Resolver.Config) (threshold : ℤ)
    (source : Source) {visits : List Visit}
    (hup : ∀ v∈visits, v.outcomes.redisUp=true ∧ v.outcomes.selectUp=true) (p : Pass) :
    (visitUrls checks scanner threshold source visits p).2=true := by
  induction visits generalizing p with
  | nil => rfl
  | cons v visits ih =>
    have hv := hup v List.mem_cons_self
    have hknown : (alreadyKnown v.outcomes p.site (urlToDomain checks v.url)).isSome=true := by
      rw [alreadyKnown,hv.1,hv.2,Bool.not_true,if_neg Bool.false_ne_true,
        if_neg Bool.false_ne_true]
      split <;> rfl
    have hfirst : (visitUrl checks scanner threshold source v.sourcePost v.outcomes p
        v.url).2=true := by
      obtain ⟨-,-,hdone⟩ | ⟨-,-,hdone,-⟩ :=
        visitUrl_cases checks scanner threshold source v.sourcePost v.url v.outcomes p
      · exact hdone.mpr fun _ => hknown
      · exact hdone
    rw [visitUrls,hfirst,if_pos rfl]
    exact ih (fun u hu => hup u (List.mem_cons_of_mem v hu)) _

/-- The searches that `_run_reddit` gets to. -/
def redditRuns (checks : NetlocChecks) (scanner : Resolver.Config) (cfg : Config)
    (given : Overrides) (w : World RawRedditPost) (site : Deployment) : List SearchRun :=
  searchRuns w (redditSearch checks scanner cfg given w)
    (w.clock 0+given.durationMinutes.getD cfg.durationMinutes*60)
    (given.keywords.getD cfg.keywords) ⟨⟨site,{},[],[]⟩,1,0,[]⟩

/-- While new posts arrive in front of what a search finds, a Reddit run handles
for each keyword and subreddit the newest posts of when it got there, in their
order and each once: all that the pages hold for every search that gets to its
end, and a first part of them for one that is broken off. Every search gets to
its end when the clock stays before the deadline and the stores answer. -/
theorem reddit_handles_newest (checks : NetlocChecks) (scanner : Resolver.Config) (cfg : Config)
    (given : Overrides) {w : World RawRedditPost}
    {listing : Text → Option Text → ℕ → List RawRedditPost} (h : Lists w listing)
    (site : Deployment) :
    HandledFor listing (given.maxPages.getD cfg.maxPagesPerKeyword)
      ((given.keywords.getD cfg.keywords).flatMap fun keyword =>
        (redditSearch checks scanner cfg given w).targets.map fun target => (keyword,target))
      ((∀ n, w.clock n<w.clock 0+given.durationMinutes.getD cfg.durationMinutes*60) ∧
        ∀ n url, (w.outcomes n url).redisUp=true ∧ (w.outcomes n url).selectUp=true)
      (redditRuns checks scanner cfg given w site)
      (runReddit checks scanner cfg given w site).handled := by
  have hsearch : (redditSearch checks scanner cfg given w).ask=redditAsk w := rfl
  obtain ⟨posts,hposts,hhandled⟩ := h.runKeywords hsearch
    (w.clock 0+given.durationMinutes.getD cfg.durationMinutes*60)
    (given.keywords.getD cfg.keywords) ⟨⟨site,{},[],[]⟩,1,0,[]⟩
  have hrun : (runReddit checks scanner cfg given w site).handled=posts := hposts
  rw [hrun]
  refine hhandled.mono fun hw => ⟨hw.1,fun query r => ?_⟩
  have hask (target : Option Text) (after : Option Text) (r : Run RawRedditPost) :
      (redditAsk w query target after r).2≠.raises := by
    rw [redditAsk,h.page]
    dsimp only
    rw [if_neg (by decide)]
    rintro ⟨⟩
  have hvisit (raw : RawRedditPost) (r : Run RawRedditPost) :
      (visitPost w (redditSearch checks scanner cfg given w).handle
        (w.clock 0+given.durationMinutes.getD cfg.durationMinutes*60) raw r).2=.done := by
    have htime := hw.1 r.readings
    have hdone (p : Pass) : (handleRedditPost checks scanner cfg.confidenceThreshold raw.post
        (w.outcomes r.handled.length) p).2=true :=
      visitUrls_completes checks scanner _ _ (fun v hv => by
        obtain ⟨url,_,rfl⟩ := List.mem_map.mp hv
        exact hw.2 _ _) _
    rw [visitPost,if_neg (by omega)]
    exact if_pos (hdone _)
  exact searchTargets_done (fun target r => walkPages_done (hask target) hvisit _ _ r) _ r

/-- A post without fields but its identifier. -/
private def samplePost (id : Text) : RawRedditPost := ⟨id,none,none,none,none⟩

/-- A listing that one more post comes to behind the first request. -/
private def sampleListing (_ : Text) (_ : Option Text) (n : ℕ) : List RawRedditPost :=
  if n=0 then [samplePost "a".toList] else [samplePost "b".toList,samplePost "a".toList]

/-- A server of that listing, on a day that does not pass. -/
private def sampleWorld : World RawRedditPost where
  clock := fun _ => 0
  pause := fun _ => 0
  fetch := fun n request =>
    let rest := behind RawRedditPost.fullname request.after
      (sampleListing request.query request.subreddit n)
    .response 200 (some (rest.take 25,
      if rest.length≤25 then none
      else ((rest.take 25).getLast?).map RawRedditPost.fullname))
  outcomes := fun _ _ => ⟨true,true,none,0,none,true⟩

/-- The server lists newest first. -/
private theorem sampleWorld_lists : Lists sampleWorld sampleListing where
  page := fun _ _ _ _ => rfl
  newer := by
    intro query target n
    cases n with
    | zero => exact ⟨[samplePost "b".toList],rfl⟩
    | succ n => exact ⟨[],rfl⟩
  nodup := by
    intro query target n
    cases n with
    | zero => exact List.nodup_singleton _
    | succ n =>
      change [RawRedditPost.fullname (samplePost "b".toList),
        RawRedditPost.fullname (samplePost "a".toList)].Nodup
      decide

/-- A run over two keywords handles the post that is there for the first one and
both for the second. -/
theorem sampleWorld_handled :
    HandledFor sampleListing 2 [("scam".toList,none),("loan".toList,none)]
      ((∀ n, sampleWorld.clock n < sampleWorld.clock 0+60*60) ∧ ∀ n url,
        (sampleWorld.outcomes n url).redisUp=true ∧ (sampleWorld.outcomes n url).selectUp=true)
      (redditRuns ⟨fun _ => true,fun _ => true⟩ Resolver.defaultConfig
        ⟨["scam".toList,"loan".toList],60,2,70⟩ ⟨none,none,none,none⟩ sampleWorld Deployment.init)
      (runReddit ⟨fun _ => true,fun _ => true⟩ Resolver.defaultConfig
        ⟨["scam".toList,"loan".toList],60,2,70⟩ ⟨none,none,none,none⟩ sampleWorld
        Deployment.init).handled ∧
    (redditRuns ⟨fun _ => true,fun _ => true⟩ Resolver.defaultConfig
      ⟨["scam".toList,"loan".toList],60,2,70⟩ ⟨none,none,none,none⟩ sampleWorld
      Deployment.init).map (fun s => (s.before.requests,s.posts.map RawRedditPost.id))=
      [(0,["a".toList]),(1,["b".toList,"a".toList])] :=
  ⟨reddit_handles_newest ⟨fun _ => true,fun _ => true⟩ Resolver.defaultConfig
    ⟨["scam".toList,"loan".toList],60,2,70⟩ ⟨none,none,none,none⟩ sampleWorld_lists
    Deployment.init,by decide⟩

end Newest

end ScamLens.ScrapeRuns
