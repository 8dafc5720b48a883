import Mathlib.Data.List.ReduceOption
import ScamLens.CsvTexts
import ScamLens.ScrapedPosts

/-!
# The feed of malicious URLs

The feed is a text of comment lines and of rows that the reader of
comma-separated values takes apart. A pass over a feed that reads as it was
written puts the listed domains on the blocklist, and these alone.
-/

namespace ScamLens.UrlhausFeeds

open CsvTexts ExpiringStores ExtractedUrls KeyedTables PythonText PythonUrls ScrapedPosts Services
  Tables

/-- A character that `str.splitlines` ends a line at. -/
def isLineBreak (c : Char) : Bool :=
  ['\n','\u000B','\u000C','\r','\u001C','\u001D','\u001E','\u0085','\u2028','\u2029'].contains c

/-- The lines of a text behind what is read of the first one; a line feed
behind a carriage return ends no other line. -/
def splitlinesFrom : Bool → Text → Text → List Text
  | _,line,[] => if line.isEmpty then [] else [line]
  | behindCr,line,c::text =>
    if behindCr && c== '\n' then splitlinesFrom false line text
    else if isLineBreak c then line::splitlinesFrom (c== '\r') [] text
    else splitlinesFrom false (line++[c]) text

/-- `text.splitlines()` -/
def splitlines (text : Text) : List Text := splitlinesFrom false [] text

/-- The lines of an `io.StringIO` behind what is read of the first one. -/
def linesFrom : Text → Text → List Text
  | line,[] => if line.isEmpty then [] else [line]
  | line,c::text =>
    if c= '\n' then (line++['\n'])::linesFrom [] text else linesFrom (line++[c]) text

/-- `io.StringIO(text)`, line by line with the line ends. -/
def ioLines (text : Text) : List Text := linesFrom [] text

/-- The dialect and the limit that `csv.reader` has by default. -/
def excel : Dialect where
  delimiter := ','
  quotechar := '"'
  fieldLimit := 131072
  delimiter_ne := by decide
  delimiter_newline := rfl
  quotechar_newline := rfl

/-- `URLhausEntry` with all its fields. -/
structure UrlhausRecord extends UrlhausEntry where
  /-- Number of the entry. -/
  id : Text
  /-- When it was listed. -/
  dateAdded : Text
  /-- Whether the URL is online. -/
  status : Text
  /-- What it is listed for. -/
  threat : Text
  /-- Tags. -/
  tags : Text
  /-- Who reported it. -/
  reporter : Text

/-- The entry of a row; a row of less than nine fields has none. The fifth
field is not read. -/
def entryOf : List Text → Option UrlhausRecord
  | id::dateAdded::url::status::_::threat::tags::reference::reporter::_ => some
    {id := stripChar '"' id
     dateAdded := stripChar '"' dateAdded
     url := stripChar '"' url
     status := stripChar '"' status
     threat := stripChar '"' threat
     tags := stripChar '"' tags
     reference := stripChar '"' reference
     reporter := stripChar '"' reporter}
  | _ => none

/-- A line that is no comment. -/
def isKept (line : Text) : Bool := !(line.head?==some '#')

/-- What is left of the feed without the comments. -/
def csvBody (text : Text) : Text := join ['\n'] ((splitlines text).filter isKept)

/-- `URLhausClient.recent`, given the text of the response, or none when the
fetch fails: the entries, and whether the reader gets to the end. -/
def recent (fetched : Option Text) : List UrlhausRecord×Bool :=
  match fetched with
  | none => ([],true)
  | some text =>
    let table := excel.rows (ioLines (csvBody text))
    (table.1.filterMap entryOf,table.2)

section Pass

variable (checks : NetlocChecks) (scanner : Resolver.Config) (threshold : ℤ)

/-- The link that a row gets for an entry. -/
def sourcePost (e : UrlhausEntry) : Text := if e.reference.isEmpty then e.url else e.reference

/-- The visits of the entries, with the outcomes of the calls for each one. -/
def visitsOf (entries : List UrlhausRecord) (o : ℕ → Outcomes) : List Visit :=
  entries.zipIdx.map fun e => ⟨e.1.url,sourcePost e.1.toUrlhausEntry,o e.2⟩

/-- `_run_urlhaus` from the fetch on: an exception of the reader, behind the
entries that are read by then, is counted as one of a visit is. -/
def runFeed (fetched : Option Text) (o : ℕ → Outcomes) (p : Pass) : Pass :=
  let entries := recent fetched
  let done := visitUrls checks scanner threshold .urlhaus (visitsOf entries.1 o) p
  if done.2 && entries.2 then done.1
  else {done.1 with stats := {done.1.stats with errors := done.1.stats.errors+1}}

end Pass

/-- What a line of a feed stands for: the row that is written in it, or none. -/
inductive FeedLine : Option (List Text) → Text → Prop where
  /-- An empty line. -/
  | blank : FeedLine none []
  /-- A comment. -/
  | comment {text : Text} (htext : ∀ c∈text, isLineBreak c=false) : FeedLine none ('#'::text)
  /-- A row, which does not look like a comment. -/
  | row {row : List Text} {form : Text} (hrow : excel.RowForm row form) (hne : form≠[])
      (hlength : ∀ value∈row, value.length≤excel.fieldLimit) (hkept : isKept form=true)
      (hform : ∀ c∈form, isLineBreak c=false) : FeedLine (some row) form

/-- The lines of a feed, and its text. -/
inductive FeedText : List (Option (List Text)) → Text → Prop where
  /-- Nothing more. -/
  | nil : FeedText [] []
  /-- A last line that does not end. -/
  | last {row : Option (List Text)} {line : Text} (hline : FeedLine row line) (hne : line≠[]) :
      FeedText [row] line
  /-- A line in front of others. -/
  | cons {row : Option (List Text)} {line eol : Text} {rows : List (Option (List Text))}
      {text : Text} (hline : FeedLine row line) (heol : eol=['\n'] ∨ eol=['\r','\n'])
      (hrest : FeedText rows text) : FeedText (row::rows) (line++eol++text)

section Lines

variable {line text : Text}

/-- A line of a feed has no break in it. -/
theorem FeedLine.isLineBreak_eq_false {row : Option (List Text)} (h : FeedLine row line) :
    ∀ c∈line, isLineBreak c=false := by
  cases h with
  | blank => exact fun c hc => absurd hc List.not_mem_nil
  | comment htext =>
    intro c hc
    rcases List.mem_cons.mp hc with rfl | hc
    · rfl
    · exact htext c hc
  | row _ _ _ _ hform => exact hform

/-- What has no break in it is added to the line. -/
theorem splitlinesFrom_append (h : ∀ c∈line, isLineBreak c=false) (front text : Text) :
    splitlinesFrom false front (line++text)=splitlinesFrom false (front++line) text := by
  induction line generalizing front with
  | nil => rw [List.append_nil,List.nil_append]
  | cons c line ih =>
    have hc := h c List.mem_cons_self
    rw [List.cons_append,splitlinesFrom,Bool.false_and,if_neg Bool.false_ne_true,hc,
      if_neg Bool.false_ne_true,ih (fun x hx => h x (List.mem_cons_of_mem c hx)),
      List.append_assoc,List.singleton_append]

/-- A line ends at a line feed, with or without a carriage return. -/
theorem splitlines_cons (h : ∀ c∈line, isLineBreak c=false) {eol : Text}
    (heol : eol=['\n'] ∨ eol=['\r','\n']) :
    splitlines (line++eol++text)=line::splitlines text := by
  rw [splitlines,List.append_assoc,splitlinesFrom_append h,List.nil_append]
  rcases heol with rfl | rfl
  · rfl
  · rfl

/-- The lines of a feed are those that it was put together from. -/
theorem splitlines_feed {rows : List (Option (List Text))} (h : FeedText rows text) :
    List.Forall₂ FeedLine rows (splitlines text) := by
  induction h with
  | nil => exact .nil
  | @last row line hline hne =>
    have hlines := splitlinesFrom_append hline.isLineBreak_eq_false [] []
    rw [List.append_nil,List.nil_append] at hlines
    have hempty : line.isEmpty=false := List.isEmpty_eq_false_iff.mpr hne
    rw [splitlines,hlines,splitlinesFrom,hempty,if_neg Bool.false_ne_true]
    exact .cons hline .nil
  | cons hline heol _ ih =>
    rw [splitlines_cons hline.isLineBreak_eq_false heol]
    exact .cons hline ih

/-- What has no line feed in it is added to the line. -/
theorem linesFrom_append (h : '\n'∉line) (front text : Text) :
    linesFrom front (line++text)=linesFrom (front++line) text := by
  induction line generalizing front with
  | nil => rw [List.append_nil,List.nil_append]
  | cons c line ih =>
    have hc : c≠ '\n' := fun heq => h (heq ▸ List.mem_cons_self)
    rw [List.cons_append,linesFrom,if_neg hc,ih (fun hmem => h (List.mem_cons_of_mem c hmem)),
      List.append_assoc,List.singleton_append]

/-- A line with its end stands in front of the other lines. -/
theorem ioLines_cons (h : '\n'∉line) :
    ioLines (line++ '\n'::text)=(line++['\n'])::ioLines text := by
  rw [ioLines,linesFrom_append h,List.nil_append,linesFrom,if_pos rfl]
  rfl

/-- A last line, unless there is nothing in it. -/
theorem ioLines_last (h : '\n'∉line) : ioLines line=if line.isEmpty then [] else [line] := by
  have hlines := linesFrom_append h [] []
  rw [List.append_nil,List.nil_append] at hlines
  rw [ioLines,hlines,linesFrom]

end Lines

section Reading

/-- A row and the line that is left of it: what has no row is read as an empty
one. -/
def KeptLine (row : List Text) (line : Text) : Prop :=
  '\n'∉line ∧ excel.LineForm row line ∧ excel.LineForm row (line++['\n'])

/-- A line that is kept is read as its row. -/
theorem FeedLine.keptLine {row : Option (List Text)} {line : Text} (h : FeedLine row line)
    (hkept : isKept line=true) : KeptLine (row.getD []) line := by
  have hbreak : '\n'∉line := by
    intro hmem
    have := h.isLineBreak_eq_false '\n' hmem
    cases this
  cases h with
  | blank => exact ⟨hbreak,.blank [] (.inl rfl),.blank _ (.inr rfl)⟩
  | comment => cases hkept
  | row hrow hne hlength =>
    have hline := Dialect.LineForm.row [] (.inl rfl) hrow hne hlength
    rw [List.append_nil] at hline
    exact ⟨hbreak,hline,.row ['\n'] (.inr rfl) hrow hne hlength⟩

/-- The lines that are kept have the rows of the feed. -/
theorem keptLines {rows : List (Option (List Text))} {lines : List Text}
    (h : List.Forall₂ FeedLine rows lines) :
    ∃ table, List.Forall₂ KeptLine table (lines.filter isKept) ∧
      table.filterMap entryOf=rows.reduceOption.filterMap entryOf := by
  induction h with
  | nil => exact ⟨[],.nil,rfl⟩
  | @cons row line rows lines hline _ ih =>
    obtain ⟨table,htable,hentries⟩ := ih
    by_cases hkept : isKept line=true
    · refine ⟨row.getD []::table,?_,?_⟩
      · rw [List.filter_cons_of_pos hkept]
        exact .cons (hline.keptLine hkept) htable
      · cases row with
        | none => exact hentries
        | some row =>
          rw [Option.getD_some,List.reduceOption_cons_of_some,List.filterMap_cons,
            List.filterMap_cons,hentries]
    · refine ⟨table,?_,?_⟩
      · rw [List.filter_cons_of_neg hkept]
        exact htable
      · cases hline with
        | blank => exact hentries
        | comment => exact hentries
        | row _ _ _ hform => exact absurd hform hkept

/-- The reader gets the kept lines back from the body, but for an empty one at
the end. -/
theorem ioLines_join {table : List (List Text)} {lines : List Text}
    (h : List.Forall₂ KeptLine table lines) :
    ∃ table', List.Forall₂ excel.LineForm table' (ioLines (join ['\n'] lines)) ∧
      table'.filterMap entryOf=table.filterMap entryOf := by
  induction h with
  | nil => exact ⟨[],.nil,rfl⟩
  | @cons row line table lines hline hrest ih =>
    cases hrest with
    | nil =>
      have hlast : ioLines (join ['\n'] [line])=if line.isEmpty then [] else [line] := by
        rw [← ioLines_last hline.1]
        simp [join]
      rw [hlast]
      cases hempty : line.isEmpty with
      | false => exact ⟨[row],.cons hline.2.1 .nil,rfl⟩
      | true =>
        refine ⟨[],.nil,?_⟩
        obtain rfl : line=[] := List.isEmpty_iff.mp hempty
        have hrow : row=[] := by
          have hread := (readLine_form hline.2.1).symm
          have hblank := readLine_form (Dialect.LineForm.blank (d := excel) [] (.inl rfl))
          rw [hblank] at hread
          exact (Reader.mk.inj (Option.some.inj hread)).2.1
        rw [hrow]
        rfl
    | @cons _ next _ rest _ _ =>
      obtain ⟨table',htable,hentries⟩ := ih
      have hbody : join ['\n'] (line::next::rest)=line++ '\n'::join ['\n'] (next::rest) := by
        simp [join]
      refine ⟨row::table',?_,?_⟩
      · rw [hbody,ioLines_cons hline.1]
        exact .cons hline.2.2 htable
      · rw [List.filterMap_cons,List.filterMap_cons,hentries]

/-- A feed reads as it was written: the entries of its rows, in their order. -/
theorem recent_feed {rows : List (Option (List Text))} {text : Text} (h : FeedText rows text) :
    recent (some text)=(rows.reduceOption.filterMap entryOf,true) := by
  obtain ⟨table,htable,hentries⟩ := keptLines (splitlines_feed h)
  obtain ⟨table',htable',hentries'⟩ := ioLines_join htable
  rw [recent,csvBody,rows_of_forms htable',← hentries,← hentries']

end Reading

section Blocked

variable {checks : NetlocChecks} {scanner : Resolver.Config} {threshold : ℤ}
  {link url domain d : Text} {o : Outcomes} {p : Pass}

/-- Calls that all succeed. -/
def Answered (o : Outcomes) : Prop := o.redisUp=true ∧ o.selectUp=true ∧ o.insertUp=true

/-- The row that a listed domain gets: none without a dot, on the whitelist or
with a verdict in the cache. -/
def listedRow (s : Deployment) (link domain : Text) : Option SeedRow :=
  if domain.contains '.' && (getLive s.redis.verdicts s.now domain).isNone &&
      (s.db.whitelist.lookup domain).isNone then
    some ⟨some "scraped-urlhaus".toList,some link,some "urlhaus".toList⟩
  else none

/-- The calls say of a domain what the stores hold of it. -/
theorem alreadyKnown_of_answered (domain : Text) (h : Answered o) (s : Deployment) :
    alreadyKnown o s domain=some ((getLive s.redis.verdicts s.now domain).isSome ||
      (s.db.blocklistSeed.lookup domain).isSome || (s.db.whitelist.lookup domain).isSome) := by
  rw [alreadyKnown,h.1,h.2.1]
  cases (getLive s.redis.verdicts s.now domain).isSome <;> rfl

/-- A visit of the feed completes, counts the URL and no error. -/
theorem visitUrl_answered (checks : NetlocChecks) (scanner : Resolver.Config) (threshold : ℤ)
    (link url : Text) (p : Pass) (h : Answered o) :
    (visitUrl checks scanner threshold .urlhaus link o p url).2=true ∧
    (visitUrl checks scanner threshold .urlhaus link o p url).1.stats.urlsSeen=p.stats.urlsSeen+1 ∧
    (visitUrl checks scanner threshold .urlhaus link o p url).1.stats.errors=p.stats.errors := by
  obtain ⟨-,hout,hdone⟩ | ⟨-,-,hdone,⟨hasks,-,-⟩ | ⟨-,hout⟩⟩ :=
    visitUrl_cases checks scanner threshold .urlhaus link url o p
  · rw [hout]
    refine ⟨hdone.mpr fun _ => ?_,rfl,rfl⟩
    rw [alreadyKnown_of_answered _ h]
    rfl
  · cases hasks
  · rw [hout,(promote_frame _ _ _ _ _).2.2.2]
    exact ⟨hdone,rfl,rfl⟩

/-- A visit of the feed gets as far as a row for what is open and not on the
blocklist. -/
theorem reachesInsert_iff (checks : NetlocChecks) (threshold : ℤ) (link url : Text)
    (h : Answered o) (s : Deployment) :
    reachesInsert checks threshold .urlhaus o s url=
      ((listedRow s link (urlToDomain checks url)).isSome &&
        (s.db.blocklistSeed.lookup (urlToDomain checks url)).isNone) := by
  rw [reachesInsert,alreadyKnown_of_answered _ h,h.2.2,listedRow]
  generalize urlToDomain checks url=domain
  cases domain.contains '.' <;> cases getLive s.redis.verdicts s.now domain <;>
    cases s.db.blocklistSeed.lookup domain <;> cases s.db.whitelist.lookup domain <;> rfl

/-- A visit of the feed does not ask the scanner. -/
theorem askedSite_urlhaus (s : Deployment) : askedSite checks scanner .urlhaus o s url=s := by
  rw [askedSite,sends,Source.asksScanner,Bool.and_false]
  rfl

/-- A visit of the feed gives its domain a row, unless there is one. -/
theorem lookup_visitUrl (h : Answered o) :
    (visitUrl checks scanner threshold .urlhaus link o p url).1.site.db.blocklistSeed.lookup d=
      (p.site.db.blocklistSeed.lookup d).or
        (if urlToDomain checks url=d then listedRow p.site link d else none) := by
  have hreach := reachesInsert_iff checks threshold link url h p.site
  rw [visitUrl_effects.2.2,askedSite_urlhaus,hreach]
  by_cases heq : urlToDomain checks url=d
  · subst heq
    rw [if_pos rfl]
    cases hold : p.site.db.blocklistSeed.lookup (urlToDomain checks url) with
    | some row => simp [hold]
    | none =>
      rw [Option.isNone_none,Bool.and_true,Option.none_or]
      cases hrow : listedRow p.site link (urlToDomain checks url) with
      | none => exact hold
      | some row =>
        have hpromoted : (promoted p.site .urlhaus link
            (urlToDomain checks url)).db.blocklistSeed.lookup (urlToDomain checks url)=
              some ⟨some "scraped-urlhaus".toList,some link,some "urlhaus".toList⟩ := by
          rw [promoted,Database.promoteScraped]
          dsimp only
          rw [lookup_upsert,if_pos rfl,hold]
          rfl
        rw [Option.isSome_some,if_pos rfl,hpromoted]
        rw [listedRow] at hrow
        exact (Option.ite_none_right_eq_some.mp hrow).2
  · rw [if_neg heq,Option.or_none]
    split
    · rw [promoted,Database.promoteScraped]
      dsimp only
      rw [lookup_upsert,if_neg (Ne.symm heq)]
    · rfl

/-- The stores that decide whether a domain is open do not change. -/
theorem listedRow_visitUrl :
    listedRow (visitUrl checks scanner threshold .urlhaus link o p url).1.site=
      listedRow p.site := by
  rw [visitUrl_effects.2.2,askedSite_urlhaus]
  split <;> rfl

/-- Whether a domain is open does not depend on the link. -/
theorem listedRow_eq_none {s : Deployment} {other : Text} (h : listedRow s link d=none) :
    listedRow s other d=none := by
  rw [listedRow] at h ⊢
  split_ifs at h ⊢
  rfl

/-- The first visit of a domain decides on its row. -/
theorem lookup_visitUrls {visits : List Visit} (h : ∀ v∈visits, Answered v.outcomes) :
    (visitUrls checks scanner threshold .urlhaus visits p).1.site.db.blocklistSeed.lookup d=
      (p.site.db.blocklistSeed.lookup d).or
        ((visits.find? fun v => urlToDomain checks v.url==d).bind fun v =>
          listedRow p.site v.sourcePost d) := by
  induction visits generalizing p with
  | nil => rw [List.find?_nil,Option.bind_none,Option.or_none,visitUrls]
  | cons v visits ih =>
    have hv := h v List.mem_cons_self
    have hdone := visitUrl_answered checks scanner threshold v.sourcePost v.url p hv
    rw [visitUrls,hdone.1,if_pos rfl,ih fun w hw => h w (List.mem_cons_of_mem v hw),
      lookup_visitUrl hv,listedRow_visitUrl,List.find?_cons]
    by_cases heq : urlToDomain checks v.url=d
    · rw [if_pos heq,beq_iff_eq.mpr heq,Option.bind_some]
      cases p.site.db.blocklistSeed.lookup d with
      | some row => rfl
      | none =>
        rw [Option.none_or]
        cases hrow : listedRow p.site v.sourcePost d with
        | some row => rfl
        | none =>
          have hrest (w : Visit) : listedRow p.site w.sourcePost d=none := listedRow_eq_none hrow
          simp only [hrest,Option.none_or]
          cases visits.find? fun w => urlToDomain checks w.url==d <;> rfl
    · rw [if_neg heq,beq_eq_false_iff_ne.mpr heq,Option.or_none]

/-- The visits of the feed complete; they count every URL and no error. -/
theorem visitUrls_answered (checks : NetlocChecks) (scanner : Resolver.Config) (threshold : ℤ)
    (p : Pass) {visits : List Visit} (h : ∀ v∈visits, Answered v.outcomes) :
    (visitUrls checks scanner threshold .urlhaus visits p).2=true ∧
    (visitUrls checks scanner threshold .urlhaus visits p).1.stats.urlsSeen=
      p.stats.urlsSeen+visits.length ∧
    (visitUrls checks scanner threshold .urlhaus visits p).1.stats.errors=p.stats.errors := by
  induction visits generalizing p with
  | nil => exact ⟨rfl,rfl,rfl⟩
  | cons v visits ih =>
    have hdone := visitUrl_answered checks scanner threshold v.sourcePost v.url p
      (h v List.mem_cons_self)
    have hrest := ih (visitUrl checks scanner threshold .urlhaus v.sourcePost v.outcomes p v.url).1
      fun w hw => h w (List.mem_cons_of_mem v hw)
    rw [visitUrls,hdone.1,if_pos rfl]
    refine ⟨hrest.1,?_,hrest.2.2.trans hdone.2.2⟩
    rw [hrest.2.1,hdone.2.1,List.length_cons]
    omega

/-- The first visit of a domain is the one of its first entry. -/
theorem find_visitsOf (checks : NetlocChecks) (d : Text) (entries : List UrlhausRecord)
    (o : ℕ → Outcomes) (n : ℕ) :
    (((entries.zipIdx n).map fun e : UrlhausRecord×ℕ =>
      (⟨e.1.url,sourcePost e.1.toUrlhausEntry,o e.2⟩ : Visit)).find?
        fun v => urlToDomain checks v.url==d).map Visit.sourcePost=
      (entries.find? fun e => urlToDomain checks e.url==d).map
        fun e => sourcePost e.toUrlhausEntry := by
  induction entries generalizing n with
  | nil => rfl
  | cons e entries ih =>
    rw [List.zipIdx_cons,List.map_cons,List.find?_cons,List.find?_cons]
    cases urlToDomain checks e.url==d with
    | true => rfl
    | false => exact ih (n+1)

/-- A feed that is written row by row reads as its rows. A pass over it, when the
calls succeed: the first entry of a domain without a row gives it one, with the
link of the entry, unless the domain is known otherwise; every entry is counted
and nothing raises. -/
theorem feed_blocks_listed (checks : NetlocChecks) (scanner : Resolver.Config) (threshold : ℤ)
    {rows : List (Option (List Text))} {text : Text} (hfeed : FeedText rows text)
    {o : ℕ → Outcomes} (ho : ∀ n, Answered (o n)) (p : Pass) :
    recent (some text)=(rows.reduceOption.filterMap entryOf,true) ∧
    (∀ d, (runFeed checks scanner threshold (some text) o p).site.db.blocklistSeed.lookup d=
      (p.site.db.blocklistSeed.lookup d).or
        (((rows.reduceOption.filterMap entryOf).find? fun e => urlToDomain checks e.url==d).bind
          fun e => listedRow p.site (sourcePost e.toUrlhausEntry) d)) ∧
    (runFeed checks scanner threshold (some text) o p).stats.urlsSeen=
      p.stats.urlsSeen+(rows.reduceOption.filterMap entryOf).length ∧
    (runFeed checks scanner threshold (some text) o p).stats.errors=p.stats.errors := by
  have hread := recent_feed hfeed
  generalize rows.reduceOption.filterMap entryOf=entries at hread ⊢
  have hanswered : ∀ v∈visitsOf entries o, Answered v.outcomes := by
    intro v hv
    obtain ⟨e,_,rfl⟩ := List.mem_map.mp hv
    exact ho e.2
  have hdone := visitUrls_answered checks scanner threshold p hanswered
  have hrun : runFeed checks scanner threshold (some text) o p=
      (visitUrls checks scanner threshold .urlhaus (visitsOf entries o) p).1 := by
    rw [runFeed,hread]
    dsimp only
    rw [hdone.1,Bool.and_true,if_pos rfl]
  rw [hrun]
  refine ⟨hread,fun d => ?_,?_,hdone.2.2⟩
  · have hfind := find_visitsOf checks d entries o 0
    have hbind (first : Option Visit) : first.bind (fun v => listedRow p.site v.sourcePost d)=
        (first.map Visit.sourcePost).bind fun link => listedRow p.site link d := by
      cases first <;> rfl
    rw [lookup_visitUrls hanswered,hbind,visitsOf,hfind]
    cases entries.find? fun e => urlToDomain checks e.url==d <;> rfl
  · rw [hdone.2.1,visitsOf,List.length_map,List.length_zipIdx]

end Blocked

section Example

/-- The fields of a row of the feed. -/
private def sampleRow : List Text :=
  ["7".toList,"2024-05-01".toList,"http://cdn.example.net/a\"b".toList,"online".toList,
    "2024-05-02".toList,"malware_download".toList,"elf,mirai".toList,[],"me".toList]

/-- The row with every field in quotes, but the empty one. -/
private def sampleForm : Text :=
  "\"7\",\"2024-05-01\",\"http://cdn.example.net/a\"\"b\",\"online\",".toList++
    "\"2024-05-02\",\"malware_download\",\"elf,mirai\",,\"me\"".toList

/-- The feed of that row, with a comment in front. -/
private def sampleFeed : Text := "# recent\r\n".toList++sampleForm++"\r\n".toList

/-- The form is one of the row. -/
private theorem sampleForm_row : excel.RowForm sampleRow sampleForm := by
  have hplain : excel.FieldForm [] [] := .plain (by decide) (by decide)
  exact .cons (.quoted _) (.cons (.quoted _) (.cons (.quoted _) (.cons (.quoted _)
    (.cons (.quoted _) (.cons (.quoted _) (.cons (.quoted _) (.cons hplain
      (.single (.quoted _)))))))))

/-- The feed is written row by row. -/
private theorem sampleFeed_text : FeedText [none,some sampleRow] sampleFeed :=
  have hrow : FeedText [some sampleRow] (sampleForm++['\r','\n']++[]) :=
    .cons (.row sampleForm_row (by decide) (by decide) rfl (by decide)) (.inr rfl) .nil
  have hcomment : FeedLine none ('#'::" recent".toList) := .comment (by decide)
  have hfeed : FeedText [none,some sampleRow]
      ('#'::" recent".toList++['\r','\n']++(sampleForm++['\r','\n']++[])) :=
    .cons hcomment (.inr rfl) hrow
  hfeed

/-- The feed reads as that row, and a pass over it puts its domain on the
blocklist, with the URL as the link. -/
theorem feed_blocks_sample :
    (recent (some sampleFeed)).1.map (·.tags)=["elf,mirai".toList] ∧
    (runFeed ⟨fun _ => true,fun _ => true⟩ Resolver.defaultConfig 70 (some sampleFeed)
      (fun _ => ⟨true,true,none,0,none,true⟩)
      ⟨Deployment.init,{},[],[]⟩).site.db.blocklistSeed.lookup "cdn.example.net".toList=
      some ⟨some "scraped-urlhaus".toList,some "http://cdn.example.net/a\"b".toList,
        some "urlhaus".toList⟩ := by
  have hrun := feed_blocks_listed ⟨fun _ => true,fun _ => true⟩ Resolver.defaultConfig 70
    sampleFeed_text (o := fun _ => ⟨true,true,none,0,none,true⟩) (fun _ => ⟨rfl,rfl,rfl⟩)
    ⟨Deployment.init,{},[],[]⟩
  rw [hrun.1,hrun.2.1]
  exact ⟨rfl,by decide⟩

end Example

end ScamLens.UrlhausFeeds
