import ScamLens.PythonUrls

/-!
# References between pages

`urljoin` reads a reference against the address of the page that holds it. A
reference with a scheme of its own stays as it is, one with an authority keeps
it, and every other one stays on the host of the page.
-/

namespace ScamLens.UrlReferences

open PythonText PythonUrls UrlSyntax

/-- `SplitResult` -/
structure SplitUrl where
  /-- Scheme. -/
  scheme : Text
  /-- Authority. -/
  netloc : Text
  /-- Path. -/
  path : Text
  /-- Query, without its question mark. -/
  query : Text
  /-- Fragment, without its number sign. -/
  fragment : Text
  deriving DecidableEq

/-- `ParseResult` -/
structure ParsedUrl extends SplitUrl where
  /-- Parameters of the last segment of the path. -/
  params : Text
  deriving DecidableEq

/-- `uses_relative` -/
def usesRelative : List Text :=
  ["","ftp","http","gopher","nntp","imap","wais","file","https","shttp","mms","prospero","rtsp",
    "rtspu","sftp","svn","svn+ssh","ws","wss"].map String.toList

/-- `uses_netloc` -/
def usesNetloc : List Text :=
  ["","ftp","http","gopher","nntp","telnet","imap","wais","file","mms","https","shttp","snews",
    "prospero","rtsp","rtspu","rsync","svn","svn+ssh","sftp","nfs","git","git+ssh","ws",
    "wss"].map String.toList

/-- `uses_params` -/
def usesParams : List Text :=
  ["","ftp","hdl","prospero","http","imap","https","shttp","rtsp","rtspu","sip","sips","mms",
    "sftp","tel"].map String.toList

/-- The two parts of a text around the first such code point. -/
def cutAt (c : Char) (s : Text) : Text×Text :=
  (s.takeWhile (· != c),(s.dropWhile (· != c)).drop 1)

/-- The scheme of a URL, in lower case, or the one that is given. -/
def urlScheme (scheme url : Text) : Text :=
  let front := url.takeWhile (· != ':')
  if ':'∈url ∧ front.head?.any isAsciiLetter ∧ front.all isSchemeChar then lower front else scheme

/-- A given scheme without the code points that are dropped. -/
def cleanScheme (scheme : Text) : Text :=
  ((scheme.dropWhile isC0OrSpace).rdropWhile isC0OrSpace).filter (!isUnsafe ·)

/-- What is behind the authority. -/
def dropNetloc (rest : Text) : Text :=
  if "//".toList.isPrefixOf rest then (rest.drop 2).dropWhile (!endsAuthority ·) else rest

/-- `urlsplit(url, scheme)`, none when it raises. -/
def urlsplit (checks : NetlocChecks) (url scheme : Text) : Option SplitUrl :=
  let url := cleanUrl url
  let rest := dropUrlScheme url
  (splitNetloc checks rest).map fun netloc =>
    let fragmentCut := cutAt '#' (dropNetloc rest)
    let queryCut := cutAt '?' fragmentCut.1
    ⟨urlScheme (cleanScheme scheme) url,netloc,queryCut.1,queryCut.2,fragmentCut.2⟩

/-- `_splitparams` -/
def splitParams (url : Text) : Text×Text :=
  let last := cutAt ';' (url.rtakeWhile (· != '/'))
  (url.rdropWhile (· != '/')++last.1,last.2)

/-- `urlparse(url, scheme)`, none when it raises. -/
def urlparse (checks : NetlocChecks) (url scheme : Text) : Option ParsedUrl :=
  (urlsplit checks url scheme).map fun parts =>
    if usesParams.contains parts.scheme ∧ ';'∈parts.path then
      let cut := splitParams parts.path
      ⟨{parts with path := cut.1},cut.2⟩
    else ⟨parts,[]⟩

/-- `urlunsplit` -/
def urlunsplit (parts : SplitUrl) : Text :=
  let url :=
    if parts.netloc≠[] ∨ (parts.scheme≠[] ∧ usesNetloc.contains parts.scheme ∧
        "//".toList.isPrefixOf parts.path=false) then
      "//".toList++(parts.netloc++
        if parts.path=[] ∨ parts.path.head?=some '/' then parts.path else '/'::parts.path)
    else parts.path
  let url := if parts.scheme=[] then url else parts.scheme++ ':'::url
  let url := if parts.query=[] then url else url++ '?'::parts.query
  if parts.fragment=[] then url else url++ '#'::parts.fragment

/-- `urlunparse` -/
def urlunparse (parts : ParsedUrl) : Text :=
  urlunsplit {parts.toSplitUrl with
    path := if parts.params=[] then parts.path else parts.path++ ';'::parts.params}

/-- The segments of the directory of a path. -/
def directory (path : Text) : List Text :=
  let parts := path.splitOn '/'
  if parts.getLast?=some [] then parts else parts.dropLast

/-- `segments[1:-1] = filter(None, segments[1:-1])` -/
def dropEmptyInside : List Text → List Text
  | first::next::rest =>
    first::((next::rest).dropLast.filter (· ≠ [])++(next::rest).getLast?.toList)
  | segments => segments

/-- One segment on the path that is resolved so far. -/
def walkSegment (resolved : List Text) (segment : Text) : List Text :=
  if segment="..".toList then resolved.dropLast
  else if segment=".".toList then resolved
  else resolved++[segment]

/-- The path of a reference against the path of a page. -/
def resolvePath (base path : Text) : Text :=
  let segments :=
    if path.head?=some '/' then path.splitOn '/'
    else dropEmptyInside (directory base++path.splitOn '/')
  let resolved := segments.foldl walkSegment []
  let resolved :=
    if segments.getLast?=some ".".toList ∨ segments.getLast?=some "..".toList then resolved++[[]]
    else resolved
  let joined := join ['/'] resolved
  if joined=[] then ['/'] else joined

/-- What a reference comes to on a page, both taken apart. -/
def joinParts (base ref : ParsedUrl) : ParsedUrl :=
  let netloc := if usesNetloc.contains ref.scheme then base.netloc else ref.netloc
  if ref.path=[] ∧ ref.params=[] then
    {ref with
      netloc := netloc
      path := base.path
      params := base.params
      query := if ref.query=[] then base.query else ref.query}
  else {ref with netloc := netloc, path := resolvePath base.path ref.path}

/-- `urljoin`, none when it raises. -/
def urljoin (checks : NetlocChecks) (base url : Text) : Option Text :=
  if base=[] then some url
  else if url=[] then some base
  else
    (urlparse checks base []).bind fun b =>
      (urlparse checks url b.scheme).map fun r =>
        if r.scheme≠b.scheme ∨ usesRelative.contains r.scheme=false then url
        else if usesNetloc.contains r.scheme ∧ r.netloc≠[] then urlunparse r
        else urlunparse (joinParts b r)

example : ["../b?x","//other.org","?y","#z","HTTPS:c","Https://x.y","javascript2:"].map (fun href =>
      urljoin ⟨fun _ => true,fun _ => true⟩ "http://a.bc/d/e/f;p?q#r".toList href.toList)=
    ["http://a.bc/d/b?x","http://other.org","http://a.bc/d/e/f;p?y","http://a.bc/d/e/f;p?q#z",
      "HTTPS:c","Https://x.y","javascript2:"].map (some ·.toList) := by
  decide +kernel

section Authorities

variable {checks : NetlocChecks} {scheme n tail url : Text}

/-- What may follow an authority. -/
def StartsBehind (tail : Text) : Prop := ∀ c∈tail.head?, endsAuthority c=true

/-- A part of a URL that is read as its authority. -/
structure Authority (checks : NetlocChecks) (n : Text) : Prop where
  /-- The checks let it pass. -/
  passes : splitNetloc checks ("//".toList++n)=some n
  /-- Nothing in it ends it or is dropped. -/
  plain : ∀ c∈n, endsAuthority c=false ∧ isUnsafe c=false

/-- A URL is read up to the end of its authority. -/
theorem splitNetloc_takeWhile (rest : Text) : splitNetloc checks ("//".toList++rest)=
    splitNetloc checks ("//".toList++rest.takeWhile (!endsAuthority ·)) := by
  have hfront (s : Text) : "//".toList.isPrefixOf ("//".toList++s)=true :=
    List.isPrefixOf_iff_prefix.mpr (List.prefix_append _ _)
  have hdrop (s : Text) : ("//".toList++s).drop 2=s := rfl
  rw [splitNetloc,splitNetloc,if_pos (hfront _),if_pos (hfront _),hdrop,hdrop,List.takeWhile_idem]

/-- An authority is found in front of what may follow it. -/
theorem Authority.splitNetloc (h : Authority checks n) (htail : StartsBehind tail) :
    splitNetloc checks ("//".toList++(n++tail))=some n := by
  have hfound : (n++tail).takeWhile (!endsAuthority ·)=n :=
    (takeWhile_append_stop (!endsAuthority ·) (fun c hc => by rw [(h.plain c hc).1]; rfl)
      (fun c hc => by rw [htail c hc]; rfl)).1
  rw [splitNetloc_takeWhile,hfound,h.passes]

/-- Dropped code points are not the first behind an authority. -/
theorem StartsBehind.filter (h : StartsBehind tail) : StartsBehind (tail.filter (!isUnsafe ·)) := by
  cases tail with
  | nil => exact h
  | cons c tail =>
    have hc := h c rfl
    have hkept : (!isUnsafe c)=true := by
      simp only [endsAuthority,Bool.or_eq_true,beq_iff_eq] at hc
      rcases hc with (rfl|rfl)|rfl <;> rfl
    rw [List.filter_cons_of_pos (p := fun c => !isUnsafe c) hkept]
    exact h

/-- A shorter text behind an authority may follow it as well. -/
theorem StartsBehind.of_prefix {front : Text} (h : StartsBehind tail) (hp : front <+: tail) :
    StartsBehind front := by
  cases front with
  | nil => exact nofun
  | cons c front =>
    obtain ⟨rest,rfl⟩ := hp
    exact h

/-- A written URL of the web without the code points that are dropped. -/
theorem cleanUrl_web (hs : scheme="http".toList ∨ scheme="https".toList) (h : Authority checks n)
    (tail : Text) : cleanUrl (scheme++("://".toList++(n++tail)))=
      scheme++("://".toList++(n++tail.filter (!isUnsafe ·))) := by
  have hfront : ∀ c∈scheme++"://".toList, 32 < c.toNat := by
    rcases hs with rfl|rfl <;> decide
  have hne : scheme++"://".toList≠[] := fun he => by cases List.append_eq_nil_iff.mp he |>.2
  have hkept : n.filter (!isUnsafe ·)=n :=
    List.filter_eq_self.mpr fun c hc => by rw [(h.plain c hc).2]; rfl
  rw [←List.append_assoc,cleanUrl_append hne hfront,List.filter_append,hkept,List.append_assoc]

/-- The authority of a written URL of the web. -/
theorem netloc_web (hs : scheme="http".toList ∨ scheme="https".toList) (h : Authority checks n)
    (htail : StartsBehind tail) : netloc checks (scheme++("://".toList++(n++tail)))=some n := by
  rw [netloc,cleanUrl_web hs h]
  exact (congrArg (PythonUrls.splitNetloc checks) (dropUrlScheme_web hs _)).trans
    (h.splitNetloc htail.filter)

/-- What is read as an authority can be written as one. -/
theorem authority_of_netloc (h : netloc checks url=some n) : Authority checks n := by
  rw [netloc] at h
  have hclean : ∀ c∈dropUrlScheme (cleanUrl url), isUnsafe c=false := by
    intro c hc
    have hmem : c∈cleanUrl url := by
      rw [dropUrlScheme] at hc
      split at hc
      · exact List.mem_of_mem_drop hc
      · exact hc
    have hkept := (List.mem_filter.mp hmem).2
    rwa [Bool.not_eq_true'] at hkept
  generalize dropUrlScheme (cleanUrl url)=rest at h hclean
  by_cases hslash : "//".toList.isPrefixOf rest=true
  · obtain ⟨back,rfl⟩ := List.isPrefixOf_iff_prefix.mp hslash
    have hfound := eq_of_splitNetloc h
    refine ⟨by rw [hfound,←splitNetloc_takeWhile,h,hfound],fun c hc => ?_⟩
    rw [hfound] at hc
    refine ⟨?_,hclean c (List.mem_append_right _ (List.takeWhile_subset _ hc))⟩
    have hp := List.mem_takeWhile_imp hc
    rwa [Bool.not_eq_true'] at hp
  · rw [PythonUrls.splitNetloc,if_neg hslash] at h
    obtain rfl := Option.some.inj h
    exact ⟨by rfl,fun c hc => absurd hc List.not_mem_nil⟩

end Authorities

section Joins

variable {checks : NetlocChecks} {base url n : Text} {b r : ParsedUrl}

/-- The part of `urlparse` that decides where a URL leads. -/
theorem netloc_urlparse {scheme : Text} (h : urlparse checks url scheme=some r) :
    netloc checks url=some r.netloc := by
  obtain ⟨parts,hparts,rfl⟩ := Option.map_eq_some_iff.mp h
  obtain ⟨found,hfound,rfl⟩ := Option.map_eq_some_iff.mp hparts
  rw [netloc,hfound]
  split <;> rfl

/-- A URL whose authority passes the checks can be taken apart. -/
theorem exists_urlparse (h : netloc checks url=some n) (scheme : Text) :
    ∃ r, urlparse checks url scheme=some r ∧ r.netloc=n ∧
      r.scheme=urlScheme (cleanScheme scheme) (cleanUrl url) := by
  rw [netloc] at h
  simp only [urlparse,urlsplit,h,Option.map_some,Option.some.injEq,exists_eq_left']
  split <;> exact ⟨rfl,rfl⟩

/-- A written scheme of the web is read as it is. -/
theorem urlScheme_web {scheme : Text} (hs : scheme="http".toList ∨ scheme="https".toList)
    (given rest : Text) : urlScheme given (scheme++ ':'::rest)=scheme := by
  have hchars : ':'∉scheme ∧ scheme.head?.any isAsciiLetter=true ∧
      scheme.all isSchemeChar=true ∧ lower scheme=scheme := by
    rcases hs with rfl|rfl <;> exact ⟨by decide,by decide,by decide,by decide⟩
  have hfront : (scheme++ ':'::rest).takeWhile (· != ':')=scheme :=
    (takeWhile_append_stop (· != ':')
      (fun c hc => bne_iff_ne.mpr fun he => hchars.1 (he ▸ hc))
      (fun c hc => by cases hc; rfl)).1
  have hmem : ':'∈scheme++ ':'::rest := List.mem_append_right _ List.mem_cons_self
  rw [urlScheme,hfront,if_pos ⟨hmem,hchars.2.1,hchars.2.2.1⟩,hchars.2.2.2]

/-- A URL with a scheme and an authority is written as they are. -/
theorem urlunparse_web (hs : r.scheme≠[]) (hn : r.netloc≠[]) : ∃ tail, StartsBehind tail ∧
    urlunparse r=r.scheme++("://".toList++(r.netloc++tail)) := by
  generalize hpath : (if r.params=[] then r.path else r.path++ ';'::r.params)=path
  let written := if path=[] ∨ path.head?=some '/' then path else '/'::path
  let query := if r.query=[] then [] else '?'::r.query
  let fragment := if r.fragment=[] then [] else '#'::r.fragment
  have hwritten : StartsBehind written := by
    intro c hc
    by_cases hempty : path=[]
    · simp only [written,hempty,true_or,if_true] at hc
      cases hc
    by_cases hslash : path.head?=some '/'
    · simp only [written,hslash,or_true,if_true,Option.mem_some_iff] at hc
      exact hc ▸ rfl
    · simp only [written,hempty,hslash,or_self,if_false,List.head?_cons,
        Option.mem_some_iff] at hc
      exact hc ▸ rfl
  refine ⟨written++(query++fragment),?_,?_⟩
  · intro c hc
    rw [List.head?_append,Option.mem_def,Option.or_eq_some_iff] at hc
    rcases hc with hc|⟨-,hc⟩
    · exact hwritten c hc
    · rw [List.head?_append,Option.or_eq_some_iff] at hc
      rcases hc with hc|⟨-,hc⟩
      · simp only [query] at hc
        split at hc <;> cases hc
        rfl
      · simp only [fragment] at hc
        split at hc <;> cases hc
        rfl
  · rw [urlunparse,urlunsplit,hpath]
    simp only [hn,hs,ne_eq,not_false_eq_true,true_or,if_true,if_false]
    simp only [written,query,fragment]
    split <;> split <;> simp only [List.append_assoc,List.append_nil,List.cons_append,
      List.nil_append] <;> rfl

/-- The schemes of the web come with an authority. -/
theorem web_schemes {scheme : Text} (hs : scheme="http".toList ∨ scheme="https".toList) :
    scheme≠[] ∧ usesNetloc.contains scheme=true := by
  rcases hs with rfl|rfl <;> exact ⟨by decide,by decide⟩

/-- A reference with the scheme of its page is read against it. -/
theorem joins_web (hs : b.scheme="http".toList ∨ b.scheme="https".toList)
    (hscheme : r.scheme=b.scheme) :
    ¬(r.scheme≠b.scheme ∨ usesRelative.contains r.scheme=false) := by
  have hrel : usesRelative.contains b.scheme=true := by
    rcases hs with h|h <;> rw [h] <;> decide
  rw [hscheme,hrel]
  exact fun hboth => hboth.elim (· rfl) fun hnot => absurd hnot (by decide)

/-- A page and a reference on it that can both be read. -/
structure Reads (checks : NetlocChecks) (base url : Text) (b r : ParsedUrl) : Prop where
  /-- The page has an address. -/
  base_ne : base≠[]
  /-- The reference is no empty text. -/
  url_ne : url≠[]
  /-- The address of the page, taken apart. -/
  base : urlparse checks base []=some b
  /-- The reference, with the scheme of the page unless it has its own. -/
  url : urlparse checks url b.scheme=some r

/-- A reference with another scheme stays as it is. -/
theorem Reads.urljoin_other (h : Reads checks base url b r) (hscheme : r.scheme≠b.scheme) :
    urljoin checks base url=some url := by
  rw [urljoin,if_neg h.base_ne,if_neg h.url_ne,h.base,Option.bind_some,h.url,Option.map_some,
    if_pos (.inl hscheme)]

/-- A reference with an authority keeps it. -/
theorem Reads.urljoin_authority (h : Reads checks base url b r)
    (hs : b.scheme="http".toList ∨ b.scheme="https".toList) (hscheme : r.scheme=b.scheme)
    (hn : r.netloc≠[]) : ∃ tail, StartsBehind tail ∧
      urljoin checks base url=some (b.scheme++("://".toList++(r.netloc++tail))) := by
  obtain ⟨hne,hnet⟩ := web_schemes hs
  obtain ⟨tail,htail,hwritten⟩ := urlunparse_web (r := r) (hscheme ▸ hne) hn
  refine ⟨tail,htail,?_⟩
  rw [urljoin,if_neg h.base_ne,if_neg h.url_ne,h.base,Option.bind_some,h.url,Option.map_some,
    if_neg (joins_web hs hscheme),if_pos ⟨hscheme ▸ hnet,hn⟩,hwritten,hscheme]

/-- A reference with neither stays on the authority of its page. -/
theorem Reads.urljoin_relative (h : Reads checks base url b r)
    (hs : b.scheme="http".toList ∨ b.scheme="https".toList) (hscheme : r.scheme=b.scheme)
    (hnone : r.netloc=[]) (hn : b.netloc≠[]) : ∃ tail, StartsBehind tail ∧
      urljoin checks base url=some (b.scheme++("://".toList++(b.netloc++tail))) := by
  obtain ⟨hne,hnet⟩ := web_schemes hs
  have hjoined : (joinParts b r).scheme=b.scheme ∧ (joinParts b r).netloc=b.netloc := by
    simp only [joinParts,hscheme,hnet,if_true]
    split <;> exact ⟨rfl,rfl⟩
  obtain ⟨tail,htail,hwritten⟩ := urlunparse_web (r := joinParts b r) (hjoined.1 ▸ hne)
    (hjoined.2 ▸ hn)
  refine ⟨tail,htail,?_⟩
  rw [urljoin,if_neg h.base_ne,if_neg h.url_ne,h.base,Option.bind_some,h.url,Option.map_some,
    if_neg (joins_web hs hscheme),if_neg fun hboth => hboth.2 hnone,hwritten,hjoined.1,hjoined.2]

end Joins

end ScamLens.UrlReferences
