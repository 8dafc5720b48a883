import ScamLens.ExtractedUrls
import ScamLens.FirstOccurrences
import ScamLens.RunMatches
import ScamLens.UrlReferences
import ScamLens.VerdictTexts

/-!
# The links of a scanned page

A scan report lists where a page leads: the first links of the page, read
against its address, their first domains, and for each domain what the verdict
key holds when it is read. Domains that are known to be bad come first.
-/

namespace ScamLens.PageLinks

open BacktrackingRegex EventRuns ExpiringStores ExtractedUrls FirstOccurrences Heuristics
  JsonDumps JsonTexts PythonText PythonUrls UrlReferences UrlSyntax VerdictTexts
open ModelAnswers (field)
open Resolver (Config)
open VerdictCache (CachedJson)

section Links

/-- `HREF_RE` -/
def hrefRe : Regex Char :=
  .seqs [word "href".toList,.star isSpace,.symbol (· == '='),.star isSpace,.symbol isQuote,
    .plus (!isQuote ·),.symbol isQuote]

/-- The group of a match: what is between the quotes. -/
def hrefGroup (found : Text) : Text := ((found.dropWhile (!isQuote ·)).drop 1).dropLast

/-- `HREF_RE.findall(html)` -/
def hrefs (html : Text) : List Text := (hrefRe.findAll html).map hrefGroup

/-- Whether a reference is no link to a page. -/
def isSkipped (href : Text) : Bool :=
  ["javascript:","mailto:","tel:","#","data:"].any (·.toList.isPrefixOf href)

/-- The link of a match, none where it is passed over. -/
def linkOf (checks : NetlocChecks) (baseUrl m : Text) : Option Text :=
  let href := strip m
  if href=[] ∨ isSkipped href then none
  else if "/".toList.isPrefixOf href ∨ startsWithScheme href=false then
    urljoin checks baseUrl href
  else some href

/-- The loop of `_extract_links`. -/
def collectLinks (checks : NetlocChecks) (baseUrl : Text) : List Text → List Text → List Text
  | results,[] => results
  | results,m::ms =>
    match linkOf checks baseUrl m with
    | none => collectLinks checks baseUrl results ms
    | some href =>
      if results.contains href then collectLinks checks baseUrl results ms
      else if 200 ≤ results.length+1 then results++[href]
      else collectLinks checks baseUrl (results++[href]) ms

/-- `_extract_links` -/
def extractLinks (checks : NetlocChecks) (html baseUrl : Text) : List Text :=
  collectLinks checks baseUrl [] (hrefs html)

end Links

section Triage

/-- A cached verdict as an entry shows it. -/
structure CachedVerdict where
  /-- `"verdict"` -/
  verdict : JsonValue
  /-- `"risk_score"` -/
  riskScore : JsonValue
  /-- `"source"` -/
  source : JsonValue

/-- An entry of the list of domains. -/
structure LinkReport where
  /-- `"domain"` -/
  domain : Text
  /-- `"first_seen_href"` -/
  firstSeenHref : Text
  /-- `"cached_verdict"` -/
  cachedVerdict : Option CachedVerdict

/-- The loop of `_triage_links` over the links. -/
def collectDomains (checks : NetlocChecks) : List (Text×Text) → List Text → List (Text×Text)
  | byDomain,[] => byDomain
  | byDomain,href::links =>
    let d := extractDomain checks href
    if d=[] then collectDomains checks byDomain links
    else
      let byDomain := if (byDomain.map Prod.fst).contains d then byDomain else byDomain++[(d,href)]
      if 30≤byDomain.length then byDomain else collectDomains checks byDomain links

/-- What an entry shows of the text under its key. -/
def cachedVerdict (depth : ℕ) (raw : Option Text) : Option CachedVerdict :=
  match raw.filter (· != []) with
  | none => none
  | some raw =>
    match loads depth raw with
    | .ok (.object fields) => some {
        verdict := field fields "verdict" .null
        riskScore := field fields "risk_score" .null
        source := field fields "source" .null }
    | _ => none

/-- The GETs of the triage, given what each of them returns. -/
def readAll (depth : ℕ) (reads : ℕ → Text → Except Text (Option Text)) :
    ℕ → List (Text×Text) → Except Text (List LinkReport)
  | _,[] => .ok []
  | k,(d,href)::rest =>
    match reads k d with
    | .error e => .error e
    | .ok raw => (readAll depth reads (k+1) rest).map (⟨d,href,cachedVerdict depth raw⟩::·)

/-- The rank of an entry, none when the dictionary of ranks raises. -/
def linkRank (r : LinkReport) : Option ℕ :=
  match r.cachedVerdict with
  | none => some 9
  | some v =>
    match v.verdict with
    | .string s =>
      some (if s="scam".toList then 0 else if s="suspicious".toList then 1
        else if s="pending".toList then 2 else 9)
    | .array _ => none
    | .object _ => none
    | _ => some 9

/-- The rank by which an entry is put in its place. -/
def rankOf (r : LinkReport) : ℕ := (linkRank r).getD 9

/-- `_triage_links` -/
def triageLinks (checks : NetlocChecks) (depth : ℕ) (reads : ℕ → Text → Except Text (Option Text))
    (links : List Text) : Except Text (List LinkReport) :=
  (readAll depth reads 0 (collectDomains checks [] links)).bind fun out =>
    if out.all (linkRank · |>.isSome) then .ok (sortByRank rankOf out)
    else .error "TypeError".toList

end Triage

section Loops

variable {checks : NetlocChecks}

/-- The links are the first different ones of the matches. -/
theorem collectLinks_eq_collect (baseUrl : Text) (results ms : List Text) :
    collectLinks checks baseUrl results ms=
      collect id 200 results (ms.filterMap (linkOf checks baseUrl)) := by
  induction ms generalizing results with
  | nil => rw [collectLinks,List.filterMap_nil,collect]
  | cons m ms ih =>
    rw [collectLinks]
    cases hlink : linkOf checks baseUrl m with
    | none => rw [List.filterMap_cons_none hlink,ih]
    | some href =>
      rw [List.filterMap_cons_some hlink,collect]
      have hkeys : results.contains href=true ↔ id href∈results.map id := by
        rw [List.map_id,List.contains_iff_mem,id]
      by_cases hseen : results.contains href=true
      · simp only [if_pos hseen,if_pos (hkeys.mp hseen),ih]
      · simp only [if_neg hseen,if_neg (mt hkeys.mpr hseen),ih]

/-- A link with the domain it is listed under, none if it has no host. -/
def hosted (checks : NetlocChecks) (href : Text) : Option (Text×Text) :=
  if extractDomain checks href=[] then none else some (extractDomain checks href,href)

/-- The domains are the first different ones of the links. -/
theorem collectDomains_eq_collect {byDomain : List (Text×Text)} (h : byDomain.length<30)
    (links : List Text) : collectDomains checks byDomain links=
      collect Prod.fst 30 byDomain (links.filterMap (hosted checks)) := by
  induction links generalizing byDomain with
  | nil => rw [collectDomains,List.filterMap_nil,collect]
  | cons href links ih =>
    rw [collectDomains]
    by_cases hnone : extractDomain checks href=[]
    · rw [List.filterMap_cons_none (by rw [hosted,if_pos hnone]),if_pos hnone,ih h]
    rw [List.filterMap_cons_some (by rw [hosted,if_neg hnone]),if_neg hnone,collect]
    have hkeys : (byDomain.map Prod.fst).contains (extractDomain checks href)=true ↔
        extractDomain checks href∈byDomain.map Prod.fst := List.contains_iff_mem
    by_cases hseen : (byDomain.map Prod.fst).contains (extractDomain checks href)=true
    · simp only [if_pos hseen,if_pos (hkeys.mp hseen),if_neg (Nat.not_le.mpr h),ih h]
    · simp only [if_neg hseen,if_neg (mt hkeys.mpr hseen),List.length_append,
        List.length_singleton]
      split
      · rfl
      · rename_i hless
        refine ih ?_
        rw [List.length_append,List.length_singleton]
        omega

end Loops

section Hosts

variable {checks : NetlocChecks} {scheme n base m : Text}

/-- The address of a page, as a browser writes it. -/
structure PageAddress (checks : NetlocChecks) (scheme n base : Text) : Prop where
  /-- The scheme of a page is one of the web. -/
  web : scheme="http".toList ∨ scheme="https".toList
  /-- Its authority can be read, and has no white space. -/
  authority : Authority checks n
  /-- There is one. -/
  authority_ne : n≠[]
  /-- White space would be written otherwise. -/
  solid : ∀ c∈n, isSpace c=false
  /-- The path is behind it. -/
  written : ∃ tail, StartsBehind tail ∧ base=scheme++("://".toList++(n++tail))

/-- Where the link of a reference on a page leads. -/
structure Leads (checks : NetlocChecks) (scheme n base m : Text) : Prop where
  /-- To its own authority, or to that of the page if it has none. -/
  host : ∀ r, urlparse checks (strip m) scheme=some r → (∀ c∈r.netloc, isSpace c=false) →
    startsWithScheme (strip m)=true ∨ r.scheme=scheme →
    ∃ link, linkOf checks base m=some link ∧ extractDomain checks link=
      lower (hostname (if r.netloc=[] ∧ startsWithScheme (strip m)=false then n else r.netloc))
  /-- With another scheme it stays as it is. -/
  other : ∀ r, urlparse checks (strip m) scheme=some r → startsWithScheme (strip m)=false →
    r.scheme≠scheme → linkOf checks base m=some (strip m)
  /-- To no domain, where it cannot be read. -/
  unread : urlparse checks (strip m) scheme=none →
    ∀ link, linkOf checks base m=some link → extractDomain checks link=[]

/-- What is stripped has no white space at its ends. -/
theorem strip_strip (s : Text) : strip (strip s)=strip s := by
  have hhead : (strip s).dropWhile isSpace=strip s := by
    rw [List.dropWhile_eq_self_iff]
    intro hl
    have hfront : strip s <+: s.dropWhile isSpace := List.rdropWhile_prefix isSpace _
    have hlong := hl.trans_le hfront.length_le
    rw [hfront.getElem hl]
    exact List.dropWhile_get_zero_not isSpace s hlong
  rw [strip.eq_1 (strip s),hhead]
  exact List.rdropWhile_idempotent isSpace _

/-- The domain of a written URL of the web is its host in lower case. -/
theorem extractDomain_web {tail : Text} (hs : scheme="http".toList ∨ scheme="https".toList)
    (h : Authority checks n) (hsolid : ∀ c∈n, isSpace c=false) (htail : StartsBehind tail) :
    extractDomain checks (scheme++("://".toList++(n++tail)))=lower (hostname n) := by
  have hfront : ∀ c∈scheme++"://".toList++n, isSpace c=false := by
    intro c hc
    rcases List.mem_append.mp hc with hc|hc
    · have hall : ∀ c∈scheme++"://".toList, isSpace c=false := by
        rcases hs with rfl|rfl <;> decide
      exact hall c hc
    · exact hsolid c hc
  have hne : scheme++"://".toList++n≠[] := fun he => by
    cases (List.append_eq_nil_iff.mp (List.append_eq_nil_iff.mp he).1).2
  have hstrip : strip (scheme++("://".toList++(n++tail)))=
      scheme++("://".toList++(n++tail.rdropWhile isSpace)) := by
    have heq := strip_append hne hfront tail
    simpa only [List.append_assoc] using heq
  have hstart : startsWithScheme (scheme++("://".toList++(n++tail.rdropWhile isSpace)))=true := by
    rcases hs with rfl|rfl <;> rfl
  have hbehind : StartsBehind (tail.rdropWhile isSpace) :=
    htail.of_prefix (List.rdropWhile_prefix isSpace _)
  rw [extractDomain,hstrip,if_pos hstart,urlToDomain,netloc_web hs h hbehind,Option.map_some,
    Option.getD_some]

/-- The address of a page, taken apart. -/
theorem PageAddress.urlparse (page : PageAddress checks scheme n base) :
    ∃ b, UrlReferences.urlparse checks base []=some b ∧ b.scheme=scheme ∧ b.netloc=n := by
  obtain ⟨tail,htail,rfl⟩ := page.written
  obtain ⟨b,hb,hnetloc,hscheme⟩ :=
    exists_urlparse (netloc_web page.web page.authority htail) []
  refine ⟨b,hb,?_,hnetloc⟩
  rw [hscheme,cleanUrl_web page.web page.authority]
  exact urlScheme_web page.web _ _

/-- A page and a reference on it can be read together. -/
theorem PageAddress.reads (page : PageAddress checks scheme n base) {href : Text} {r : ParsedUrl}
    (hne : href≠[]) (hparse : UrlReferences.urlparse checks href scheme=some r) :
    ∃ b, Reads checks base href b r ∧ b.scheme=scheme ∧ b.netloc=n := by
  obtain ⟨b,hb,hscheme,hnetloc⟩ := page.urlparse
  refine ⟨b,⟨?_,hne,hb,by rw [hscheme,hparse]⟩,hscheme,hnetloc⟩
  obtain ⟨tail,-,rfl⟩ := page.written
  intro he
  have hscheme := (List.append_eq_nil_iff.mp he).1
  rcases page.web with rfl|rfl <;> cases hscheme

/-- A reference with a scheme of the web does not begin with a slash. -/
theorem slash_of_startsWithScheme {href : Text} (h : startsWithScheme href=true) :
    "/".toList.isPrefixOf href=false := by
  rw [startsWithScheme,Bool.or_eq_true] at h
  rcases h with h|h <;> obtain ⟨rest,rfl⟩ := List.isPrefixOf_iff_prefix.mp h <;> rfl

/-- The link of a reference that can be read. -/
theorem PageAddress.link_host (page : PageAddress checks scheme n base) {r : ParsedUrl}
    (hne : strip m≠[]) (hlink : isSkipped (strip m)=false)
    (hparse : UrlReferences.urlparse checks (strip m) scheme=some r) :
    ((∀ c∈r.netloc, isSpace c=false) → startsWithScheme (strip m)=true ∨ r.scheme=scheme →
      ∃ link, linkOf checks base m=some link ∧ extractDomain checks link=
        lower (hostname (if r.netloc=[] ∧ startsWithScheme (strip m)=false then n
          else r.netloc))) ∧
    (startsWithScheme (strip m)=false → r.scheme≠scheme → linkOf checks base m=some (strip m)) := by
  have hkept : ¬(strip m=[] ∨ isSkipped (strip m)=true) := by
    rw [hlink]
    exact fun h => h.elim hne Bool.false_ne_true
  cases hstart : startsWithScheme (strip m) with
  | true =>
    refine ⟨fun _ _ => ⟨strip m,?_,?_⟩,fun hnot => absurd hnot (by decide)⟩
    · rw [linkOf,if_neg hkept,slash_of_startsWithScheme hstart,hstart,
        if_neg (by decide)]
    · rw [extractDomain,strip_strip,if_pos hstart,urlToDomain,netloc_urlparse hparse,
        if_neg fun h => absurd h.2 (by decide)]
      rfl
  | false =>
    have hjoin : linkOf checks base m=urljoin checks base (strip m) := by
      rw [linkOf,if_neg hkept,if_pos (.inr hstart)]
    obtain ⟨b,hreads,hscheme,hnetloc⟩ := page.reads hne hparse
    have hweb : b.scheme="http".toList ∨ b.scheme="https".toList := hscheme ▸ page.web
    refine ⟨fun hsolid hsame => ?_,fun _ hother => ?_⟩
    · have hown : r.scheme=b.scheme := (hsame.resolve_left Bool.false_ne_true).trans hscheme.symm
      by_cases hnone : r.netloc=[]
      · obtain ⟨tail,htail,hjoined⟩ := hreads.urljoin_relative hweb hown hnone
          (hnetloc ▸ page.authority_ne)
        refine ⟨_,hjoin.trans hjoined,?_⟩
        rw [if_pos ⟨hnone,rfl⟩,hnetloc,extractDomain_web hweb page.authority page.solid htail]
      · obtain ⟨tail,htail,hjoined⟩ := hreads.urljoin_authority hweb hown hnone
        refine ⟨_,hjoin.trans hjoined,?_⟩
        rw [if_neg fun h => hnone h.1,
          extractDomain_web hweb (authority_of_netloc (netloc_urlparse hparse)) hsolid htail]
    · rw [hjoin,hreads.urljoin_other (hscheme ▸ hother)]

/-- What cannot be read has no domain. -/
theorem PageAddress.link_unread (page : PageAddress checks scheme n base) {link : Text}
    (hparse : UrlReferences.urlparse checks (strip m) scheme=none)
    (h : linkOf checks base m=some link) : extractDomain checks link=[] := by
  have hnetloc : netloc checks (strip m)=none := by
    cases hread : netloc checks (strip m) with
    | none => rfl
    | some found =>
      obtain ⟨r,hr,-⟩ := exists_urlparse hread scheme
      rw [hparse] at hr
      cases hr
  rw [linkOf] at h
  split_ifs at h with hskip hjoin
  · obtain ⟨b,hb,hscheme,-⟩ := page.urlparse
    rw [not_or] at hskip
    obtain ⟨tail,-,hbase⟩ := page.written
    have hne : base≠[] := by
      rw [hbase]
      rcases page.web with rfl|rfl <;> exact List.cons_ne_nil _ _
    rw [urljoin,if_neg hne,if_neg hskip.1,hb,Option.bind_some,hscheme,hparse] at h
    cases h
  · rw [not_or,Bool.not_eq_false] at hjoin
    obtain rfl := Option.some.inj h
    rw [extractDomain,strip_strip,if_pos hjoin.2,urlToDomain,hnetloc]
    rfl

/-- Every reference that is not passed over leads somewhere. -/
theorem PageAddress.leads (page : PageAddress checks scheme n base) (hne : strip m≠[])
    (hlink : isSkipped (strip m)=false) : Leads checks scheme n base m where
  host := fun _ hparse hsolid hlead => (page.link_host hne hlink hparse).1 hsolid hlead
  other := fun _ hparse => (page.link_host hne hlink hparse).2
  unread := fun hparse _ => page.link_unread hparse

end Hosts

section Matches

/-- A repetition in front of what it cannot read stops there. -/
theorem ends_star_append {p : Char → Bool} {next : Regex Char} {spaces back : Text}
    (hspaces : ∀ c∈spaces, p c=true) (hback : ∀ c∈back.head?, p c=false)
    (hnext : ∀ c s, p c=true → next.ends (c::s)=[]) :
    (Regex.seq (.star p) next).ends (spaces++back)=next.ends back := by
  have hstop : starEnds p back=[back] := by
    cases back with
    | nil => rfl
    | cons c back => rw [starEnds,hback c rfl,if_neg Bool.false_ne_true]
  change (starEnds p (spaces++back)).flatMap next.ends=_
  induction spaces with
  | nil => rw [List.nil_append,hstop,List.flatMap_singleton]
  | cons c spaces ih =>
    rw [List.forall_mem_cons] at hspaces
    rw [List.cons_append,starEnds,if_pos hspaces.1,List.flatMap_append,ih hspaces.2,
      List.flatMap_singleton,hnext c _ hspaces.1,List.append_nil]

/-- A link in a page: markup and an attribute with its value in quotes. -/
structure Anchor where
  /-- What is in front of the attribute. -/
  before : Text
  /-- The name of the attribute, in any case. -/
  name : Text
  /-- White space behind the name. -/
  left : Text
  /-- White space behind the equality sign. -/
  right : Text
  /-- The quote in front of the value. -/
  opening : Char
  /-- The value. -/
  value : Text
  /-- The quote behind the value. -/
  closing : Char

/-- The name of the attribute is not written in a text. -/
def Plain (s : Text) : Prop := ∀ tail, tail <:+ s → (word "href".toList).ends tail=[]

/-- A code point that the matcher takes for a letter. -/
def Spells (c d : Char) : Prop := (foldForms c).contains (foldChar d)=true

instance (c d : Char) : Decidable (Spells c d) := inferInstanceAs (Decidable (_=true))

/-- The parts of a link are what they are said to be. -/
structure Anchor.Valid (a : Anchor) : Prop where
  /-- The name is in front of the attribute only. -/
  before : Plain a.before
  /-- The name, in any case. -/
  name : List.Forall₂ Spells "href".toList a.name
  /-- White space. -/
  left : ∀ c∈a.left, isSpace c=true
  /-- White space. -/
  right : ∀ c∈a.right, isSpace c=true
  /-- A quote. -/
  opening : isQuote a.opening=true
  /-- A quote. -/
  closing : isQuote a.closing=true
  /-- There is a value. -/
  value_ne : a.value≠[]
  /-- No quote is in the value. -/
  value : ∀ c∈a.value, isQuote c=false

/-- The attribute of a link. -/
def Anchor.attribute (a : Anchor) : Text :=
  a.name++(a.left++ '='::(a.right++a.opening::(a.value++[a.closing])))

/-- The name is read, and nothing else is left over. -/
theorem ends_name {name : Text} (h : List.Forall₂ Spells "href".toList name) (back : Text) :
    (word "href".toList).ends (name++back)=[back] := by
  have hclasses : word "href".toList=
      Regex.classes ("href".toList.map fun c d => (foldForms c).contains (foldChar d)) := by
    rw [word,Regex.classes,List.map_map]
    rfl
  rw [hclasses]
  exact Regex.ends_classes (List.forall₂_map_left_iff.mpr h) back

/-- Quotes are no white space, and neither is the equality sign. -/
theorem isSpace_quote {c : Char} (h : isQuote c=true) : isSpace c=false := by
  rw [isQuote,Bool.or_eq_true,beq_iff_eq,beq_iff_eq] at h
  rcases h with rfl|rfl <;> decide

/-- An attribute is one match. -/
theorem Anchor.Valid.ends {a : Anchor} (h : a.Valid) (rest : Text) :
    hrefRe.ends (a.attribute++rest)=[rest] := by
  have hequal : ∀ c∈('='::(a.right++a.opening::(a.value++a.closing::rest))).head?,
      isSpace c=false := by
    rintro c ⟨⟩
    decide
  have hopening : ∀ c∈(a.opening::(a.value++a.closing::rest)).head?, isSpace c=false := by
    rintro c ⟨⟩
    exact isSpace_quote h.opening
  have hclosing : ∀ c∈(a.closing::rest).head?, (!isQuote c)=false := by
    rintro c ⟨⟩
    rw [h.closing]
    rfl
  obtain ⟨c,value,hvalue⟩ := List.exists_cons_of_ne_nil h.value_ne
  have hvalues := h.value
  rw [hvalue,List.forall_mem_cons] at hvalues
  have htext : a.attribute++rest=
      a.name++(a.left++ '='::(a.right++a.opening::(c::value++a.closing::rest))) := by
    simp only [Anchor.attribute,hvalue,List.append_assoc,List.cons_append,List.nil_append]
  rw [hvalue] at hequal hopening
  rw [htext,hrefRe,Regex.seqs,List.foldr_cons,Regex.ends,ends_name h.name,
    List.flatMap_singleton]
  simp only [List.foldr_cons,List.foldr_nil]
  rw [ends_star_append h.left hequal fun d s hd => ?equal]
  case equal =>
    have hne : (d == '=')=false := by
      rw [beq_eq_false_iff_ne]
      rintro rfl
      exact absurd hd (by decide)
    rw [Regex.ends,Regex.ends,hne,if_neg Bool.false_ne_true,List.flatMap_nil]
  rw [Regex.ends,Regex.ends,if_pos (by decide),List.flatMap_singleton,
    ends_star_append h.right hopening fun d s hd => ?quote]
  case quote =>
    have hne : isQuote d=false := by
      rw [Bool.eq_false_iff]
      intro hq
      rw [isSpace_quote hq] at hd
      cases hd
    rw [Regex.ends,Regex.ends,hne,if_neg Bool.false_ne_true,List.flatMap_nil]
  rw [Regex.ends,Regex.ends,if_pos h.opening,List.flatMap_singleton,Regex.ends,Regex.plus,
    Regex.ends,List.cons_append,Regex.ends,hvalues.1,if_pos Bool.not_false,
    List.flatMap_singleton]
  have hrun : (Regex.seq (.star (!isQuote ·)) (.seq (.symbol isQuote) .empty)).ends
      (value++a.closing::rest)=_ :=
    ends_star_append (fun d hd => by rw [hvalues.2 d hd]; rfl) hclosing fun d s hd => ?body
  case body =>
    have hne : isQuote d=false := by rwa [Bool.not_eq_true'] at hd
    rw [Regex.ends,Regex.ends,hne,if_neg Bool.false_ne_true,List.flatMap_nil]
  refine hrun.trans ?_
  rw [Regex.ends,Regex.ends,if_pos h.closing,List.flatMap_singleton,Regex.ends]

/-- A match is found where it stands, and the search goes on behind it. -/
theorem findAll_match {found rest : Text} (hne : found≠[])
    (hends : hrefRe.ends (found++rest)=[rest]) :
    hrefRe.findAll (found++rest)=found::hrefRe.findAll rest := by
  obtain ⟨c,front,rfl⟩ := List.exists_cons_of_ne_nil hne
  have hlength : (front++rest).length-rest.length=front.length := by
    rw [List.length_append]
    omega
  have htake : (front++rest).length+1-rest.length=(c::front).length := by
    rw [List.length_append,List.length_cons]
    omega
  rw [List.cons_append] at hends
  rw [Regex.findAll,List.cons_append,Regex.findAllFrom,hends]
  change (c::(front++rest)).take ((front++rest).length+1-rest.length)::_=_
  rw [htake,hlength,Regex.findAllFrom_eq_findAll_drop,List.drop_left,←List.cons_append,
    List.take_left]

/-- Places at which the name does not stand are passed over. -/
theorem findAll_pass {before rest : Text}
    (h : ∀ tail, tail <:+ before → tail≠[] → (word "href".toList).ends (tail++rest)=[]) :
    hrefRe.findAll (before++rest)=hrefRe.findAll rest := by
  induction before with
  | nil => rfl
  | cons c before ih =>
    have hnone : hrefRe.ends (c::(before++rest))=[] := by
      have hname := h (c::before) List.suffix_rfl (List.cons_ne_nil c before)
      rw [hrefRe,Regex.seqs,List.foldr_cons,Regex.ends,←List.cons_append,hname,List.flatMap_nil]
    rw [List.cons_append,Regex.findAll_cons hnone]
    exact ih fun tail htail => h tail (htail.trans (List.suffix_cons c before))

/-- The name does not begin within other text and end within itself. -/
theorem ends_overlap {before name back : Text} (hbefore : Plain before)
    (hname : List.Forall₂ Spells "href".toList name) :
    ∀ tail, tail <:+ before → tail≠[] → (word "href".toList).ends (tail++(name++back))=[] := by
  intro tail htail hne
  refine List.eq_nil_iff_forall_not_mem.mpr fun rest hrest => ?_
  obtain ⟨front,htext,hfront⟩ := mem_ends_word hrest
  obtain ⟨h,hs,hh,-,rfl⟩ := List.forall₂_cons_left_iff.mp hname
  have hletter : ∀ c∈"ref".toList, ¬Spells c h := by
    intro c hc hspells
    have hfold : foldChar h = 'h' := by
      have hform : ['h'].contains (foldChar h)=true := hh
      exact List.mem_singleton.mp (List.contains_iff_mem.mp hform)
    rw [Spells,hfold] at hspells
    revert c
    decide
  obtain ⟨f₁,fs₁,h₁,hfs₁,rfl⟩ := List.forall₂_cons_left_iff.mp hfront
  obtain ⟨f₂,fs₂,h₂,hfs₂,rfl⟩ := List.forall₂_cons_left_iff.mp hfs₁
  obtain ⟨f₃,fs₃,h₃,hfs₃,rfl⟩ := List.forall₂_cons_left_iff.mp hfs₂
  obtain ⟨f₄,fs₄,h₄,hfs₄,rfl⟩ := List.forall₂_cons_left_iff.mp hfs₃
  obtain rfl := List.forall₂_nil_left_iff.mp hfs₄
  simp only [List.cons_append,List.nil_append] at htext
  match tail with
  | [] => exact hne rfl
  | [_] =>
    simp only [List.cons_append,List.nil_append,List.cons.injEq] at htext
    exact hletter 'r' (by decide) (htext.2.1 ▸ h₂)
  | [_,_] =>
    simp only [List.cons_append,List.nil_append,List.cons.injEq] at htext
    exact hletter 'e' (by decide) (htext.2.2.1 ▸ h₃)
  | [_,_,_] =>
    simp only [List.cons_append,List.nil_append,List.cons.injEq] at htext
    exact hletter 'f' (by decide) (htext.2.2.2.1 ▸ h₄)
  | a::b::c::d::more =>
    -- the whole name lies in front
    simp only [List.cons_append,List.cons.injEq] at htext
    obtain ⟨rfl,rfl,rfl,rfl,-⟩ := htext
    have hread := ends_name (.cons h₁ (.cons h₂ (.cons h₃ (.cons h₄ .nil)))) more
    rw [List.cons_append,List.cons_append,List.cons_append,List.cons_append,List.nil_append,
      hbefore _ htail] at hread
    cases hread

/-- What is between the quotes of an attribute is its value. -/
theorem Anchor.Valid.group {a : Anchor} (h : a.Valid) : hrefGroup a.attribute=a.value := by
  have hname : ∀ c∈a.name, (!isQuote c)=true := by
    have hletter : ∀ c∈"href".toList, ∀ d, Spells c d → (!isQuote d)=true := by
      intro c hc d hspells
      rw [Bool.not_eq_true',Bool.eq_false_iff]
      intro hq
      rw [isQuote,Bool.or_eq_true,beq_iff_eq,beq_iff_eq] at hq
      rcases hq with rfl|rfl <;> revert c <;> decide
    intro d hd
    obtain ⟨i,hi,rfl⟩ := List.mem_iff_getElem.mp hd
    have hlength := h.name.length_eq
    exact hletter _ (List.getElem_mem (hlength ▸ hi)) _ (h.name.get (hlength ▸ hi) hi)
  have hspaces {spaces : Text} (hs : ∀ c∈spaces, isSpace c=true) :
      ∀ c∈spaces, (!isQuote c)=true := by
    intro c hc
    rw [Bool.not_eq_true',Bool.eq_false_iff]
    intro hq
    have hspace := hs c hc
    rw [isSpace_quote hq] at hspace
    cases hspace
  have hfront : ∀ c∈a.name++(a.left++ '='::a.right), (!isQuote c)=true := by
    intro c hc
    rcases List.mem_append.mp hc with hc|hc
    · exact hname c hc
    rcases List.mem_append.mp hc with hc|hc
    · exact hspaces h.left c hc
    rcases List.mem_cons.mp hc with rfl|hc
    · decide
    · exact hspaces h.right c hc
  have htext : a.attribute=
      (a.name++(a.left++ '='::a.right))++a.opening::(a.value++[a.closing]) := by
    simp only [Anchor.attribute,List.append_assoc,List.cons_append]
  have hdrop := (takeWhile_append_stop (!isQuote ·) hfront
    (show ∀ c∈(a.opening::(a.value++[a.closing])).head?, (!isQuote c)=false by
      rintro c ⟨⟩
      rw [h.opening]
      rfl)).2
  rw [hrefGroup,htext,hdrop,List.drop_one,List.tail_cons,List.dropLast_concat]

/-- The links of a page are found with their values, in their order. -/
theorem hrefs_anchors {anchors : List Anchor} (h : ∀ a∈anchors, a.Valid) {after : Text}
    (hafter : Plain after) :
    hrefs ((anchors.flatMap fun a => a.before++a.attribute)++after)=anchors.map (·.value) := by
  induction anchors with
  | nil =>
    have hpass : hrefRe.findAll (after++[])=hrefRe.findAll [] :=
      findAll_pass fun tail htail _ => by rw [List.append_nil,hafter tail htail]
    rw [List.append_nil] at hpass
    rw [hrefs,List.flatMap_nil,List.nil_append,hpass]
    rfl
  | cons a anchors ih =>
    rw [List.forall_mem_cons] at h
    have hne : a.attribute≠[] := by
      obtain ⟨c,name,-,-,hname⟩ := List.forall₂_cons_left_iff.mp h.1.name
      rw [Anchor.attribute,hname]
      exact List.cons_ne_nil _ _
    have hrest := ih h.2
    rw [hrefs] at hrest
    rw [hrefs,List.flatMap_cons,List.append_assoc,List.append_assoc,
      findAll_pass (by
        rw [Anchor.attribute,List.append_assoc]
        exact ends_overlap h.1.before h.1.name),
      findAll_match hne (h.1.ends _),List.map_cons,List.map_cons,h.1.group,hrest]

end Matches

section Reports

variable {checks : NetlocChecks} {depth : ℕ} {reads : ℕ → Text → Except Text (Option Text)}

/-- The entries of a report are about the first domains of some links. -/
structure FirstDomains (checks : NetlocChecks) (links : List Text) (out : List LinkReport) :
    Prop where
  /-- The link of an entry is the first one with its domain. -/
  first : ∀ r∈out, ∃ pre post, links=pre++r.firstSeenHref::post ∧
    extractDomain checks r.firstSeenHref=r.domain ∧ ∀ l∈pre, extractDomain checks l≠r.domain
  /-- No domain has two entries. -/
  nodup : (out.map (·.domain)).Nodup
  /-- The entries come as their links do. -/
  order : (out.map (·.firstSeenHref)).Sublist links
  /-- There is an entry for each domain, unless there are thirty. -/
  complete : ∀ l∈links, extractDomain checks l≠[] →
    extractDomain checks l∈out.map (·.domain) ∨ out.length=30

/-- A link with a domain is listed under it. -/
theorem hosted_eq_some {href : Text} {entry : Text×Text} : hosted checks href=some entry ↔
    extractDomain checks href≠[] ∧ (extractDomain checks href,href)=entry := by
  rw [hosted]
  split
  · rename_i hnone
    exact iff_of_false (Option.some_ne_none entry).symm fun h => h.1 hnone
  · rename_i hdomain
    rw [Option.some.injEq,and_iff_right hdomain]

/-- Links with domains are links. -/
theorem sublist_hosted (links : List Text) :
    ((links.filterMap (hosted checks)).map Prod.snd).Sublist links := by
  induction links with
  | nil => exact .slnil
  | cons href links ih =>
    cases hlisted : hosted checks href with
    | none => exact (List.filterMap_cons_none hlisted ▸ ih).cons href
    | some entry =>
      obtain ⟨-,rfl⟩ := hosted_eq_some.mp hlisted
      rw [List.filterMap_cons_some hlisted]
      exact ih.cons_cons href

/-- The first thirty domains with their first links are what a report is about. -/
theorem firstDomains_of_map {links : List Text} {out : List LinkReport}
    (h : out.map (fun r => (r.domain,r.firstSeenHref))=
      (firsts Prod.fst (links.filterMap (hosted checks))).take 30) :
    FirstDomains checks links out := by
  have hdomains : out.map (·.domain)=
      ((firsts Prod.fst (links.filterMap (hosted checks))).take 30).map Prod.fst := by
    rw [←h,List.map_map]
    rfl
  have hhrefs : out.map (·.firstSeenHref)=
      ((firsts Prod.fst (links.filterMap (hosted checks))).take 30).map Prod.snd := by
    rw [←h,List.map_map]
    rfl
  refine ⟨fun r hr => ?_,?_,?_,fun l hl hdomain => ?_⟩
  · have hentry : (r.domain,r.firstSeenHref)∈firsts Prod.fst (links.filterMap (hosted checks)) :=
      List.mem_of_mem_take (h ▸ List.mem_map_of_mem hr)
    obtain ⟨before,behind,hsplit,hbefore⟩ := mem_firsts.mp hentry
    obtain ⟨front,back,rfl,rfl,hback⟩ := List.filterMap_eq_append_iff.mp hsplit
    obtain ⟨pre,href,post,rfl,hpre,hhref,-⟩ := List.filterMap_eq_cons_iff.mp hback
    obtain ⟨hne,hpair⟩ := hosted_eq_some.mp hhref
    obtain ⟨hdomain,rfl⟩ := Prod.mk.inj hpair
    refine ⟨front++pre,post,(List.append_assoc front pre _).symm,hdomain,fun l hl heq => ?_⟩
    have hlisted : hosted checks l=some (r.domain,l) :=
      hosted_eq_some.mpr ⟨heq ▸ hdomain ▸ hne,heq ▸ rfl⟩
    rcases List.mem_append.mp hl with hl|hl
    · exact hbefore _ (List.mem_filterMap.mpr ⟨l,hl,hlisted⟩) rfl
    · rw [hpre l hl] at hlisted
      cases hlisted
  · rw [hdomains]
    exact (nodup_firsts _).sublist ((List.take_sublist 30 _).map Prod.fst)
  · rw [hhrefs]
    exact (((List.take_sublist 30 _).trans (sublist_firsts _)).map Prod.snd).trans
      (sublist_hosted links)
  · have hlength : out.length=
        min 30 (firsts Prod.fst (links.filterMap (hosted checks))).length := by
      rw [←List.length_take,←h,List.length_map]
    rcases Nat.le_total 30 (firsts Prod.fst (links.filterMap (hosted checks))).length with
      hmany|hfew
    · exact .inr (hlength.trans (Nat.min_eq_left hmany))
    · have hlisted : (extractDomain checks l,l)∈links.filterMap (hosted checks) :=
        List.mem_filterMap.mpr ⟨l,hl,hosted_eq_some.mpr ⟨hdomain,rfl⟩⟩
      have hfirst : ∃ entry∈firsts Prod.fst (links.filterMap (hosted checks)),
          entry.1=extractDomain checks l := exists_mem_firsts hlisted
      obtain ⟨entry,hentry,hkey⟩ := hfirst
      rw [hdomains,List.take_of_length_le hfew]
      exact .inl (List.mem_map.mpr ⟨entry,hentry,hkey⟩)

/-- What an entry shows of the payload under a key. -/
def shown (data : CachedJson) : CachedVerdict where
  verdict := .string (reportedText (data.verdict.elim .unknown .known))
  riskScore := optionalInt data.riskScore
  source := optionalText data.source

/-- An entry shows the fields of the payload that a text stands for. -/
theorem cachedVerdict_textOf {float : PyFloat → Text} {raw : Text} {data : CachedJson}
    (h : TextOf float depth raw data) : cachedVerdict (depth+1) (some raw)=some (shown data) := by
  obtain ⟨fields,hdumps,hfields⟩ := h
  have hne : (some raw).filter (· != [])=some raw :=
    Option.filter_eq_some_iff.mpr ⟨rfl,bne_iff_ne.mpr (dumps_ne_nil hdumps hfields.plain)⟩
  obtain ⟨v,-,hdecode⟩ := hfields.resolver
  have hverdict : field fields "verdict" .null=
      field fields "verdict" (.string "unknown".toList) := by
    rw [decodeFields] at hdecode
    cases hlookup : fields.lookup "verdict".toList with
    | none =>
      rw [hlookup] at hdecode
      cases hdecode
    | some value => rw [field,field,hlookup,Option.getD_some,Option.getD_some]
  rw [cachedVerdict,hne]
  simp only [loads_dumps hdumps hfields.plain,hverdict,hfields.verdict,hfields.riskScore,
    hfields.sourceOrNull,shown]

/-- A GET of the triage raises, or there is an entry for each domain, with what
its own GET has returned. -/
theorem readAll_cases (k : ℕ) (listed : List (Text×Text)) :
    (∃ i entry e, listed[i]?=some entry ∧ reads (k+i) entry.1=.error e ∧
      readAll depth reads k listed=.error e) ∨
    ∃ out, readAll depth reads k listed=.ok out ∧
      out.map (fun r => (r.domain,r.firstSeenHref))=listed ∧
      ∀ i r, out[i]?=some r → ∃ raw, reads (k+i) r.domain=.ok raw ∧
        r.cachedVerdict=cachedVerdict depth raw := by
  induction listed generalizing k with
  | nil => exact .inr ⟨[],rfl,rfl,fun i r hr => by cases hr⟩
  | cons entry listed ih =>
    obtain ⟨d,href⟩ := entry
    rw [readAll]
    cases hread : reads k d with
    | error e => exact .inl ⟨0,(d,href),e,rfl,hread,rfl⟩
    | ok raw =>
      rcases ih (k+1) with ⟨i,entry,e,hentry,herror,hall⟩|⟨out,hall,hmap,hout⟩
      · refine .inl ⟨i+1,entry,e,hentry,?_,congrArg (Except.map _) hall⟩
        rw [←herror,Nat.add_right_comm,Nat.add_assoc]
      · refine .inr ⟨_,congrArg (Except.map _) hall,?_,fun i r hr => ?_⟩
        · rw [List.map_cons,hmap]
        cases i with
        | zero =>
          obtain rfl := Option.some.inj hr
          exact ⟨raw,hread,rfl⟩
        | succ i =>
          rw [←Nat.succ_add_eq_add_succ]
          exact hout i r hr

/-- The ranks of the entries. -/
theorem rankOf_mem (r : LinkReport) : rankOf r∈[0,1,2,9] := by
  rw [rankOf,linkRank]
  split
  · decide
  · split
    · split
      · decide
      split
      · decide
      split <;> decide
    all_goals decide

/-- Entries that show payloads have ranks. -/
theorem linkRank_shown {r : LinkReport} {data : Option CachedJson}
    (h : r.cachedVerdict=data.map shown) : (linkRank r).isSome=true := by
  rw [linkRank,h]
  cases data <;> rfl

/-- Checks that let everything pass. -/
private def lenient : NetlocChecks := ⟨fun _ => true,fun _ => true⟩

/-- A page with a link to itself, one to another domain and an address. -/
private def samplePage : Text :=
  "<a href=\"/login\"><A HREF = 'http://bad.tk/q'><a href='mailto:x@y.z'><a href=\"../\">".toList

/-- The other domain is found to be a scam. -/
private def sampleSaves : List Command :=
  [.save "bad.tk".toList ⟨.scam,95,90,["fake login".toList],none,"m".toList⟩]

/-- The first GET is answered before that, and the second one behind it. -/
private def sampleReads (k : ℕ) (d : Text) : Option Text :=
  let s := run (textStep Resolver.defaultConfig (fun _ => []) 1) TextCache.init
    (sampleSaves.take k)
  getLive s.verdicts s.now d

end Reports

end ScamLens.PageLinks
