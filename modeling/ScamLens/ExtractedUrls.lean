import ScamLens.Heuristics
import ScamLens.PythonUrls
import ScamLens.RegexLanguages

/-!
# URLs of a post and their domains

The scraper finds the URLs of a post without regard to case, trims what
latches onto their ends, and takes their domains by `url_to_domain`. The
control endpoint of the scanner takes the domain of the URL it is sent by
`_extract_domain`, which looks for a scheme with regard to case.
-/

namespace ScamLens.ExtractedUrls

open BacktrackingRegex Heuristics PythonText PythonUrls UrlSyntax

/-- `URL_RE` -/
def urlRe : Regex Char :=
  .seqs [word "http".toList,.opt (word "s".toList),word "://".toList,.plus (!isSpace ·)]

/-- `_TRAILING_JUNK` -/
def trailingJunk : Text :=
  ".,;:!?\"')]\x7d>".toList++
    ['\u00A0','\uFFFD','\u200B','\u200C','\u200D','\uFE0F','\u2060']

/-- `_is_emoji` -/
def isEmoji (c : Char) : Bool :=
  let cp := c.toNat
  (0x1F300 ≤ cp && cp≤0x1FAFF) || (0x2600 ≤ cp && cp≤0x27BF) || (0x1F1E6 ≤ cp && cp≤0x1F1FF)

/-- `_trim_trailing_junk` -/
def trimTrailingJunk (url : Text) : Text :=
  url.rdropWhile fun c => trailingJunk.contains c || isEmoji c

/-- Whether a trimmed match is kept: it is long enough and has a host name
with a dot. -/
def keepsUrl (checks : NetlocChecks) (url : Text) : Bool :=
  11≤url.length && ((netloc checks url).map hostname).any (·.contains '.')

/-- `extract_urls` -/
def extractUrls (checks : NetlocChecks) (text : Text) : List Text :=
  (((urlRe.findAll text).map trimTrailingJunk).filter (keepsUrl checks)).eraseDups

/-- Whether a text starts with one of the schemes of the web, in lower case:
`s.startswith(("http://", "https://"))`. -/
def startsWithScheme (s : Text) : Bool :=
  "http://".toList.isPrefixOf s || "https://".toList.isPrefixOf s

/-- `_extract_domain` -/
def extractDomain (checks : NetlocChecks) (urlOrDomain : Text) : Text :=
  let s := strip urlOrDomain
  urlToDomain checks (if startsWithScheme s then s else "http://".toList++s)

example : extractUrls ⟨fun _ => true,fun _ => true⟩
    "go to HTTPS://Evil.com/a?b=c!! or http://evil.com/a.) and https://no-dot/path".toList=
    ["HTTPS://Evil.com/a?b=c".toList,"http://evil.com/a".toList] := by
  decide +kernel

/-- What a code point is folded to leaves few choices for it. -/
theorem mem_of_foldChar {c e : Char} (h : foldChar c=e) :
    c∈['\u0130','\u212A',e,Char.ofNat (e.toNat-32)] := by
  rw [foldChar] at h
  split at h
  · rename_i hi
    exact hi ▸ List.mem_cons_self
  · split at h
    · rename_i hk
      exact hk ▸ List.mem_cons_of_mem _ List.mem_cons_self
    · rcases toLower_cases c with hself|⟨-,-,hlow⟩
      · rw [hself] at h
        exact h ▸ by simp
      · have he : Char.ofNat (e.toNat-32)=c := by
          rw [←h,hlow,Nat.add_sub_cancel,Char.ofNat_toNat]
        rw [he]
        simp

/-- A word without regard to case reads code points that fold to its letters. -/
theorem mem_ends_word {letters s rest : Text} (h : rest∈(word letters).ends s) :
    ∃ front, s=front++rest ∧
      List.Forall₂ (fun c d => (foldForms c).contains (foldChar d)=true) letters front := by
  have hclasses : word letters=
      Regex.classes (letters.map fun c d => (foldForms c).contains (foldChar d)) := by
    rw [word,Regex.classes,List.map_map]
    rfl
  rw [hclasses] at h
  obtain ⟨front,hs,hall⟩ := Regex.mem_ends_classes h
  exact ⟨front,hs,List.forall₂_map_left_iff.mp hall⟩

/-- The code points that a scheme of the web is written with. -/
def schemeForms : Text := "hHtTpPsS".toList++['\u017F']

/-- The letters of a scheme stand for few code points. -/
theorem mem_schemeForms {c d : Char} (hc : c∈"https".toList)
    (h : (foldForms c).contains (foldChar d)=true) : d∈schemeForms := by
  have hforms : ∀ c∈"https".toList, ∀ e∈foldForms c,
      ∀ d∈['\u0130','\u212A',e,Char.ofNat (e.toNat-32)], foldChar d=e → d∈schemeForms := by
    decide +kernel
  exact hforms c hc _ (List.contains_iff_mem.mp h) d (mem_of_foldChar rfl) rfl

/-- The delimiter of a scheme stands for itself. -/
theorem eq_of_delimiter {c d : Char} (hc : c∈"://".toList)
    (h : (foldForms c).contains (foldChar d)=true) : c=d := by
  have hforms : ∀ c∈"://".toList, ∀ e∈foldForms c,
      ∀ d∈['\u0130','\u212A',e,Char.ofNat (e.toNat-32)], foldChar d=e → c=d := by
    decide +kernel
  exact hforms c hc _ (List.contains_iff_mem.mp h) d (mem_of_foldChar rfl) rfl

/-- A word of letters of a scheme reads code points a scheme is written with. -/
theorem mem_ends_schemeWord {letters s rest : Text} (hl : ∀ c∈letters, c∈"https".toList)
    (h : rest∈(word letters).ends s) :
    ∃ front, s=front++rest ∧ front.length=letters.length ∧ ∀ d∈front, d∈schemeForms := by
  obtain ⟨front,hs,hall⟩ := mem_ends_word h
  refine ⟨front,hs,hall.length_eq.symm,?_⟩
  clear h hs
  induction hall with
  | nil => exact fun d hd => absurd hd List.not_mem_nil
  | cons hcd _ ih =>
    have hrest := ih fun c hc => hl c (List.mem_cons_of_mem _ hc)
    exact List.forall_mem_cons.mpr ⟨mem_schemeForms (hl _ List.mem_cons_self) hcd,hrest⟩

/-- The delimiter of a scheme is read as it is. -/
theorem mem_ends_delimiter {s rest : Text} (h : rest∈(word "://".toList).ends s) :
    s="://".toList++rest := by
  obtain ⟨front,hs,hall⟩ := mem_ends_word h
  have hsame : List.Forall₂ Eq "://".toList front :=
    List.forall₂_iff_get.mpr ⟨hall.length_eq,fun i hi hj =>
      eq_of_delimiter (List.get_mem _ _) (hall.get hi hj)⟩
  rw [List.forall₂_eq_eq_eq] at hsame
  rw [hs,←hsame]

/-- A match is a scheme, its delimiter, and text without white space. -/
theorem mem_ends_urlRe {s rest : Text} (h : rest∈urlRe.ends s) :
    ∃ scheme body, s=scheme++("://".toList++(body++rest)) ∧ scheme.length≤5 ∧
      (∀ c∈scheme, c∈schemeForms) ∧ ∀ c∈body, isSpace c=false := by
  obtain ⟨afterHttp,hhttp,h⟩ := List.mem_flatMap.mp h
  obtain ⟨afterScheme,hscheme,h⟩ := List.mem_flatMap.mp h
  obtain ⟨afterDelimiter,hdelimiter,h⟩ := List.mem_flatMap.mp h
  obtain ⟨behind,hbehind,hrest⟩ := List.mem_flatMap.mp h
  obtain ⟨http,hs,hlen,hforms⟩ := mem_ends_schemeWord (by decide) hhttp
  have htail : ∃ tail : Text, afterHttp=tail++afterScheme ∧ tail.length≤1 ∧
      ∀ c∈tail, c∈schemeForms := by
    rcases List.mem_append.mp hscheme with hword|hnone
    · obtain ⟨tail,ha,hone,hall⟩ := mem_ends_schemeWord (by decide) hword
      exact ⟨tail,ha,hone.le,hall⟩
    · exact ⟨[],(List.mem_singleton.mp hnone).symm,Nat.zero_le 1,
        fun c hc => absurd hc List.not_mem_nil⟩
  obtain ⟨tail,ha,hone,hall⟩ := htail
  rw [←List.mem_singleton.mp hrest] at hbehind
  obtain ⟨body,hb,hbody⟩ := Regex.mem_ends_iff.mp hbehind
  obtain ⟨-,hspace⟩ := Regex.reads_plus_iff.mp hbody
  refine ⟨http++tail,body,?_,?_,?_,fun c hc => (Bool.not_eq_true' _).mp (hspace c hc)⟩
  · rw [hs,ha,mem_ends_delimiter hdelimiter,hb,List.append_assoc]
  · have hfour : "http".toList.length=4 := rfl
    rw [List.length_append,hlen,hfour]
    omega
  · exact fun c hc => (List.mem_append.mp hc).elim (hforms c) (hall c)

/-- An extracted URL is a scheme, its delimiter, and text without white space,
and has a host name with a dot. -/
theorem of_mem_extractUrls {checks : NetlocChecks} {text url : Text}
    (h : url∈extractUrls checks text) :
    keepsUrl checks url=true ∧ ∃ scheme body, url=scheme++("://".toList++body) ∧
      (∀ c∈scheme, c∈schemeForms) ∧ ∀ c∈body, isSpace c=false := by
  rw [extractUrls,List.mem_eraseDups,List.mem_filter,List.mem_map] at h
  obtain ⟨⟨found,hfound,htrim⟩,hkeeps⟩ := h
  refine ⟨hkeeps,?_⟩
  obtain ⟨rest,hends⟩ := Regex.mem_ends_of_mem_findAllFrom hfound
  obtain ⟨scheme,body,hmatch,hlen,hforms,hspace⟩ := mem_ends_urlRe hends
  have hwhole : found=(scheme++"://".toList)++body := by
    refine (List.append_left_inj rest).mp ?_
    rw [hmatch]
    simp only [List.append_assoc]
  have hurl : url <+: (scheme++"://".toList)++body := by
    rw [←hwhole,←htrim]
    exact List.rdropWhile_prefix _ _
  have hlong : 11≤url.length := by
    rw [keepsUrl,Bool.and_eq_true,decide_eq_true_eq] at hkeeps
    exact hkeeps.1
  have hfront : scheme++"://".toList <+: url := by
    refine List.prefix_of_prefix_length_le (List.prefix_append _ body) hurl ?_
    have hthree : "://".toList.length=3 := rfl
    rw [List.length_append,hthree]
    omega
  obtain ⟨kept,rfl⟩ := hfront
  refine ⟨scheme,kept,by rw [List.append_assoc],hforms,fun c hc => ?_⟩
  exact hspace c (((List.prefix_append_right_inj _).mp hurl).subset hc)

/-- The domain of an extracted URL has a dot. -/
theorem dot_mem_urlToDomain {checks : NetlocChecks} {url : Text} (h : keepsUrl checks url=true) :
    '.'∈urlToDomain checks url := by
  rw [keepsUrl,Bool.and_eq_true,Option.any_eq_true] at h
  obtain ⟨-,host,hhost,hdot⟩ := h
  obtain ⟨found,hfound,rfl⟩ := Option.map_eq_some_iff.mp hhost
  rw [urlToDomain,hfound,Option.map_some,Option.getD_some]
  exact List.mem_flatMap.mpr ⟨ '.',List.contains_iff_mem.mp hdot,by decide⟩

/-- What a scheme is written with has no meaning in a host name. -/
theorem schemeForms_plain : ∀ c∈schemeForms, 32 < c.toNat ∧ endsAuthority c=false ∧ c≠ ':' ∧
    c≠ '@' ∧ c≠ '[' ∧ c≠ '%' ∧ c≠ '.' := by
  decide +kernel

section Scheme

variable {scheme : Text}

/-- A URL with another scheme in front of its own one is not cleaned up to the
second delimiter. -/
theorem cleanUrl_scheme (h : ∀ c∈scheme, c∈schemeForms) (body : Text) :
    cleanUrl ("http://".toList++(scheme++("://".toList++body)))=
      "http".toList++ ':'::("//".toList++((scheme++[':'])++("//".toList++
        body.filter (!isUnsafe ·)))) := by
  have hvisible : ∀ c∈"http://".toList++(scheme++"://".toList), 32 < c.toNat := by
    intro c hc
    rcases List.mem_append.mp hc with hc|hc
    · exact (by decide +kernel : ∀ c∈"http://".toList, 32 < c.toNat) c hc
    · rcases List.mem_append.mp hc with hc|hc
      · exact (schemeForms_plain c (h c hc)).1
      · exact (by decide +kernel : ∀ c∈"://".toList, 32 < c.toNat) c hc
  have happend : cleanUrl (("http://".toList++(scheme++"://".toList))++body)=_ :=
    cleanUrl_append (by simp) hvisible
  simp only [List.append_assoc] at happend
  rw [happend]
  simp

/-- The second scheme and its colon are read as the network location. -/
theorem takeWhile_scheme (h : ∀ c∈scheme, c∈schemeForms) (back : Text) :
    ((scheme++[':'])++("//".toList++back)).takeWhile (!endsAuthority ·)=scheme++[':'] := by
  refine (takeWhile_append_stop (!endsAuthority ·) (fun c hc => ?_) fun c hc => ?_).1
  · rcases List.mem_append.mp hc with hc|hc
    · rw [(schemeForms_plain c (h c hc)).2.1]
      rfl
    · rw [List.mem_singleton.mp hc]
      rfl
  · cases hc
    rfl

/-- The scheme is the host name there. -/
theorem hostname_scheme (h : ∀ c∈scheme, c∈schemeForms) :
    hostname (scheme++[':'])=lower scheme := by
  refine hostname_plain (fun c hc => ?_) (fun hc => (schemeForms_plain _ (h _ hc)).2.2.1 rfl)
    fun c hc => by cases hc; rfl
  rcases List.mem_append.mp hc with hc|hc
  · obtain ⟨-,-,-,hat,hbracket,hpercent,-⟩ := schemeForms_plain c (h c hc)
    exact ⟨hat,hbracket,hpercent⟩
  · rw [List.mem_singleton.mp hc]
    decide

/-- With another scheme in front, the scheme of a URL is taken for its host
name. -/
theorem dot_notMem_urlToDomain (checks : NetlocChecks) (body : Text)
    (h : ∀ c∈scheme, c∈schemeForms) :
    '.'∉urlToDomain checks ("http://".toList++(scheme++("://".toList++body))) := by
  rw [urlToDomain,netloc,cleanUrl_scheme h,dropUrlScheme_web (.inl rfl)]
  cases hnetloc : splitNetloc checks ("//".toList++((scheme++[':'])++("//".toList++
      body.filter (!isUnsafe ·)))) with
  | none => exact List.not_mem_nil
  | some found =>
    have hdot : '.'∉scheme := fun hc => (schemeForms_plain _ (h _ hc)).2.2.2.2.2.2 rfl
    rw [eq_of_splitNetloc hnetloc,takeWhile_scheme h,Option.map_some,Option.getD_some,
      hostname_scheme h]
    exact dot_not_mem_lower (dot_not_mem_lower hdot)

end Scheme

/-- The two services take the domain of an extracted URL to be the same exactly
when its scheme is in lower case. -/
theorem extractDomain_eq_urlToDomain_iff {checks : NetlocChecks} {text url : Text}
    (h : url∈extractUrls checks text) :
    extractDomain checks url=urlToDomain checks url ↔ startsWithScheme url=true := by
  obtain ⟨hkeeps,scheme,body,rfl,hforms,hspace⟩ := of_mem_extractUrls h
  have hstrip : strip (scheme++("://".toList++body))=scheme++("://".toList++body) := by
    refine strip_eq_self fun c hc => ?_
    rcases List.mem_append.mp hc with hc|hc
    · exact (by decide +kernel : ∀ c∈schemeForms, isSpace c=false) c (hforms c hc)
    · rcases List.mem_append.mp hc with hc|hc
      · exact (by decide +kernel : ∀ c∈"://".toList, isSpace c=false) c hc
      · exact hspace c hc
  simp only [extractDomain,hstrip]
  by_cases hs : startsWithScheme (scheme++("://".toList++body))=true
  · rw [if_pos hs]
    exact ⟨fun _ => hs,fun _ => rfl⟩
  · rw [if_neg hs]
    refine ⟨fun he => absurd (dot_mem_urlToDomain hkeeps) ?_,fun hc => absurd hc hs⟩
    rw [←he]
    exact dot_notMem_urlToDomain checks body hforms

/-- Both take the domain of a URL in lower case. -/
theorem extractDomain_eq_urlToDomain_iff_lower :
    "http://evil.example/login".toList∈extractUrls ⟨fun _ => true,fun _ => true⟩
      "see http://evil.example/login!".toList ∧
    (extractDomain ⟨fun _ => true,fun _ => true⟩ "http://evil.example/login".toList=
        urlToDomain ⟨fun _ => true,fun _ => true⟩ "http://evil.example/login".toList ↔
      startsWithScheme "http://evil.example/login".toList=true) :=
  have h : "http://evil.example/login".toList∈extractUrls ⟨fun _ => true,fun _ => true⟩
      "see http://evil.example/login!".toList := by
    decide +kernel
  ⟨h,extractDomain_eq_urlToDomain_iff h⟩

/-- A scheme in capitals is classified as the domain itself. -/
theorem extractDomain_capitals :
    "HTTPS://evil.example/login".toList∈extractUrls ⟨fun _ => true,fun _ => true⟩
      "HTTPS://evil.example/login".toList ∧
    urlToDomain ⟨fun _ => true,fun _ => true⟩ "HTTPS://evil.example/login".toList=
      "evil.example".toList ∧
    extractDomain ⟨fun _ => true,fun _ => true⟩ "HTTPS://evil.example/login".toList=
      "https".toList := by
  decide +kernel

end ScamLens.ExtractedUrls
