import ScamLens.ExtractedUrls
import ScamLens.RunMatches

/-!
# What the URLs of a text are

The scraper scans a text with a pattern, trims each match, keeps the ones with
a dotted host, and leaves out what it has already. The result is told without
the scan: which URLs a text has, in which order, and that they are found again
in the text that lists them.
-/

namespace ScamLens.UrlExtraction

open BacktrackingRegex ExtractedUrls Heuristics PythonText PythonUrls UrlSyntax

/-- What is trimmed off the end of a match. -/
def isJunk (c : Char) : Bool := trailingJunk.contains c || isEmoji c

/-- A URL found at a place of a text: the pattern reads it there with junk
behind it, and no longer text around the two. -/
def FoundAt (text : Text) (place : ℕ) (url : Text) : Prop :=
  ∃ junk, urlRe.MaximalAt text place (url++junk) ∧ (∀ c∈junk, isJunk c=true) ∧
    ∀ c∈url.getLast?, isJunk c=false

/-- A URL that is long enough, with a dot in its host name. -/
structure Kept (checks : NetlocChecks) (url : Text) : Prop where
  /-- It has at least 11 characters. -/
  long : 11≤url.length
  /-- Its host name has a dot. -/
  dotted : ∃ location, netloc checks url=some location ∧ '.'∈hostname location

/-- The URLs of a text, each once and by where it is found first. -/
structure Lists (checks : NetlocChecks) (text : Text) (urls : List Text) : Prop where
  /-- No URL is listed twice. -/
  nodup : urls.Nodup
  /-- A URL comes before another one if it is found before every place of it. -/
  inOrder : urls.Pairwise fun url later =>
    ∃ place, FoundAt text place url ∧ ∀ behind, FoundAt text behind later → place < behind
  /-- The URLs are the found ones that are kept. -/
  mem_iff : ∀ url, url∈urls ↔ (∃ place, FoundAt text place url) ∧ Kept checks url

section FirstOccurrences

variable {β : Type*} [BEq β] [LawfulBEq β]

/-- What is left of a list without its later occurrences is in the order of the
first ones. -/
theorem pairwise_eraseDups {xs : List (ℕ×β)} (hxs : xs.Pairwise fun x y => x.1 < y.1)
    (keeps : β → Bool) :
    ((xs.map Prod.snd).filter keeps).eraseDups.Pairwise fun u v =>
      ∃ n, (n,u)∈xs ∧ ∀ k, (k,v)∈xs → n < k := by
  induction xs generalizing keeps with
  | nil => exact .nil
  | cons x xs ih =>
    obtain ⟨hfirst,hxs⟩ := List.pairwise_cons.mp hxs
    have hlift {u v : β} (hv : v≠x.2) (h : ∃ n, (n,u)∈xs ∧ ∀ k, (k,v)∈xs → n < k) :
        ∃ n, (n,u)∈x::xs ∧ ∀ k, (k,v)∈x::xs → n < k := by
      obtain ⟨n,hn,hbefore⟩ := h
      refine ⟨n,List.mem_cons_of_mem _ hn,fun k hk => ?_⟩
      rcases List.mem_cons.mp hk with rfl|hk
      · exact absurd rfl hv
      · exact hbefore k hk
    have hrest (q : β → Bool) (hq : q x.2=false) :
        ((xs.map Prod.snd).filter q).eraseDups.Pairwise fun u v =>
          ∃ n, (n,u)∈x::xs ∧ ∀ k, (k,v)∈x::xs → n < k := by
      refine (ih hxs q).imp_of_mem fun {u v} _ hv => hlift ?_
      rintro rfl
      rw [List.mem_eraseDups,List.mem_filter,hq] at hv
      exact Bool.false_ne_true hv.2
    rw [List.map_cons,List.filter_cons]
    split
    · have hself : (!x.2==x.2 && keeps x.2)=false := by
        rw [beq_self_eq_true,Bool.not_true,Bool.false_and]
      rw [List.eraseDups_cons,List.filter_filter]
      refine List.pairwise_cons.mpr ⟨fun v hv => ?_,hrest _ hself⟩
      refine ⟨x.1,List.mem_cons_self,fun k hk => ?_⟩
      rcases List.mem_cons.mp hk with rfl|hk
      · rw [List.mem_eraseDups,List.mem_filter,hself] at hv
        exact absurd hv.2 Bool.false_ne_true
      · exact hfirst _ hk
    · rename_i hkeeps
      exact hrest keeps (Bool.eq_false_iff.mpr hkeeps)

end FirstOccurrences

section Trimming

variable {text url found : Text}

/-- A trimmed match is what the junk at its end is put behind. -/
theorem trimTrailingJunk_eq_iff : trimTrailingJunk found=url ↔
    ∃ junk, found=url++junk ∧ (∀ c∈junk, isJunk c=true) ∧ ∀ c∈url.getLast?, isJunk c=false := by
  constructor
  · rintro rfl
    refine ⟨found.rtakeWhile isJunk,List.rdropWhile_append_rtakeWhile.symm,
      fun c hc => List.mem_rtakeWhile_imp hc,fun c hc => ?_⟩
    obtain ⟨hne,rfl⟩ := List.mem_getLast?_eq_getLast hc
    exact Bool.eq_false_iff.mpr (List.rdropWhile_last_not isJunk found hne)
  · rintro ⟨junk,rfl,hjunk,hlast⟩
    have hnil : junk.rdropWhile isJunk=[] := List.rdropWhile_eq_nil_iff.mpr hjunk
    exact (rdropWhile_append isJunk hlast junk).trans (by rw [hnil,List.append_nil])

/-- A URL is kept by its length and its host name. -/
theorem keepsUrl_iff {checks : NetlocChecks} : keepsUrl checks url=true ↔ Kept checks url := by
  rw [keepsUrl,Bool.and_eq_true,decide_eq_true_eq,Option.any_eq_true]
  constructor
  · rintro ⟨hlong,host,hhost,hdot⟩
    obtain ⟨location,hlocation,rfl⟩ := Option.map_eq_some_iff.mp hhost
    exact ⟨hlong,location,hlocation,List.contains_iff_mem.mp hdot⟩
  · rintro ⟨hlong,location,hlocation,hdot⟩
    exact ⟨hlong,hostname location,by rw [hlocation,Option.map_some],
      List.contains_iff_mem.mpr hdot⟩

end Trimming

section Pattern

variable {letters w : Text}

/-- A word of letters of a scheme reads as many code points, none of them white
space. -/
theorem reads_schemeWord (hl : ∀ c∈letters, c∈"https".toList) (h : (word letters).Reads w) :
    w.length=letters.length ∧ ∀ c∈w, (!isSpace c)=true := by
  obtain ⟨front,hfront,hlength,hforms⟩ :=
    mem_ends_schemeWord hl (Regex.mem_ends_iff.mpr ⟨w,(List.append_nil w).symm,h⟩)
  rw [List.append_nil] at hfront
  subst hfront
  refine ⟨hlength,fun c hc => ?_⟩
  exact (by decide +kernel : ∀ c∈schemeForms, (!isSpace c)=true) c (hforms c hc)

/-- An optional word of letters of a scheme. -/
theorem reads_optSchemeWord (hl : ∀ c∈letters, c∈"https".toList)
    (h : (Regex.opt (word letters)).Reads w) :
    w.length≤letters.length ∧ ∀ c∈w, (!isSpace c)=true := by
  rcases Regex.reads_opt_iff.mp h with h|rfl
  · obtain ⟨hlength,hspace⟩ := reads_schemeWord hl h
    exact ⟨hlength.le,hspace⟩
  · exact ⟨Nat.zero_le _,fun c hc => absurd hc List.not_mem_nil⟩

/-- The delimiter is read as it is. -/
theorem reads_delimiter (h : (word "://".toList).Reads w) : w="://".toList := by
  have hends := mem_ends_delimiter (Regex.mem_ends_iff.mpr ⟨w,(List.append_nil w).symm,h⟩)
  rwa [List.append_nil] at hends

/-- The pattern of URLs reads a run without white space to its end. -/
theorem readsRuns_urlRe : urlRe.ReadsRuns (!isSpace ·) := by
  refine Regex.readsRuns_seq (fun h => (reads_schemeWord (by decide) h).2)
    (Regex.readsRuns_seq (fun h => (reads_optSchemeWord (by decide) h).2)
      (Regex.readsRuns_seq (fun {w} h => ?_) (Regex.readsRuns_seq_empty Regex.readsRuns_plus)))
  rw [reads_delimiter h]
  decide

/-- A long enough front of what the pattern reads is read too. -/
theorem reads_of_prefix {found url : Text} (h : urlRe.Reads found) (hurl : url <+: found)
    (hlong : 11≤url.length) : urlRe.Reads url := by
  obtain ⟨http,-,rfl,hhttp,tail,-,rfl,htail,delimiter,-,rfl,hdelimiter,body,-,rfl,hbody,rfl⟩ := h
  have hfour : http.length=4 := (reads_schemeWord (by decide) hhttp).1
  have hone : tail.length≤1 := (reads_optSchemeWord (by decide) htail).1
  have hthree : delimiter.length=3 := by
    rw [reads_delimiter hdelimiter]
    rfl
  have hwhole : http++(tail++(delimiter++(body++[])))=(http++(tail++delimiter))++body := by
    simp only [List.append_assoc,List.append_nil]
  rw [hwhole] at hurl
  have hfront : http++(tail++delimiter) <+: url := by
    refine List.prefix_of_prefix_length_le (List.prefix_append _ body) hurl ?_
    rw [List.length_append,List.length_append]
    omega
  obtain ⟨kept,rfl⟩ := hfront
  have hkept : kept <+: body := (List.prefix_append_right_inj _).mp hurl
  have hne : kept≠[] := by
    rintro rfl
    rw [List.append_nil,List.length_append,List.length_append] at hlong
    omega
  have hread : (Regex.plus (!isSpace ·)).Reads kept :=
    Regex.reads_plus_iff.mpr ⟨hne,fun c hc => (Regex.reads_plus_iff.mp hbody).2 c (hkept.subset hc)⟩
  refine ⟨http,tail++(delimiter++(kept++[])),?_,hhttp,tail,_,rfl,htail,delimiter,_,rfl,hdelimiter,
    kept,[],rfl,hread,rfl⟩
  simp only [List.append_assoc,List.append_nil]

end Pattern

section Extraction

variable {checks : NetlocChecks} {text url : Text}

/-- The found places of a text are trimmed to the found URLs. -/
theorem exists_foundPlaces (text : Text) : ∃ places : List (ℕ×Text),
    places.map Prod.snd=(urlRe.findAll text).map trimTrailingJunk ∧
      (places.Pairwise fun x y => x.1 < y.1) ∧ ∀ n u, (n,u)∈places ↔ FoundAt text n u := by
  obtain ⟨places,hplaces⟩ := Regex.exists_places readsRuns_urlRe text
  refine ⟨places.map fun x => (x.1,trimTrailingJunk x.2),?_,
    List.pairwise_map.mpr hplaces.sorted,?_⟩
  · rw [←hplaces.found,List.map_map,List.map_map]
    rfl
  · intro n u
    rw [List.mem_map,FoundAt]
    constructor
    · rintro ⟨⟨k,found⟩,hfound,hpair⟩
      obtain ⟨rfl,htrim⟩ := Prod.mk.inj hpair
      obtain ⟨junk,rfl,hjunk,hlast⟩ := trimTrailingJunk_eq_iff.mp htrim
      exact ⟨junk,(hplaces.mem_iff _ _).mp hfound,hjunk,hlast⟩
    · rintro ⟨junk,hmaximal,hjunk,hlast⟩
      refine ⟨(n,u++junk),(hplaces.mem_iff _ _).mpr hmaximal,?_⟩
      exact Prod.ext rfl (trimTrailingJunk_eq_iff.mpr ⟨junk,rfl,hjunk,hlast⟩)

/-- The extracted URLs are the URLs of the text. -/
theorem lists_extractUrls (checks : NetlocChecks) (text : Text) :
    Lists checks text (extractUrls checks text) := by
  obtain ⟨places,hmap,hsorted,hplaces⟩ := exists_foundPlaces text
  have hurls : extractUrls checks text=
      ((places.map Prod.snd).filter (keepsUrl checks)).eraseDups := by
    rw [extractUrls,hmap]
  have horder := pairwise_eraseDups hsorted (keepsUrl checks)
  rw [←hurls] at horder
  refine ⟨horder.imp ?_,horder.imp ?_,fun url => ?_⟩
  · rintro u v ⟨n,hn,hbefore⟩ rfl
    exact absurd (hbefore n hn) (lt_irrefl n)
  · rintro u v ⟨n,hn,hbefore⟩
    exact ⟨n,(hplaces n u).mp hn,fun k hk => hbefore k ((hplaces k v).mpr hk)⟩
  · rw [hurls,List.mem_eraseDups,List.mem_filter,keepsUrl_iff,List.mem_map]
    refine and_congr_left fun _ => ⟨?_,?_⟩
    · rintro ⟨⟨n,u⟩,hn,rfl⟩
      exact ⟨n,(hplaces n u).mp hn⟩
    · rintro ⟨n,hn⟩
      exact ⟨(n,url),(hplaces n url).mpr hn,rfl⟩

/-- An extracted URL is kept, is read by the pattern, and has no junk at its
end. -/
theorem Lists.spec {urls : List Text} (h : Lists checks text urls) (hurl : url∈urls) :
    keepsUrl checks url=true ∧ urlRe.Reads url ∧ trimTrailingJunk url=url := by
  obtain ⟨⟨place,junk,⟨before,behind,-,-,hmaximal⟩,hjunk,hlast⟩,hkept⟩ := (h.mem_iff url).mp hurl
  refine ⟨keepsUrl_iff.mpr hkept,?_,?_⟩
  · exact reads_of_prefix hmaximal.reads (List.prefix_append url junk) hkept.long
  · exact trimTrailingJunk_eq_iff.mpr ⟨[],(List.append_nil url).symm,nofun,hlast⟩

/-- A list without duplicates is left as it is. -/
theorem eraseDups_eq_self {β : Type*} [BEq β] [LawfulBEq β] {xs : List β} (h : xs.Nodup) :
    xs.eraseDups=xs := by
  induction xs with
  | nil => rfl
  | cons x xs ih =>
    obtain ⟨hx,hxs⟩ := List.nodup_cons.mp h
    have hfilter : xs.filter (!·==x)=xs := by
      refine List.filter_eq_self.mpr fun y hy => ?_
      rw [beq_false_of_ne (ne_of_mem_of_not_mem hy hx)]
      rfl
    rw [List.eraseDups_cons,hfilter,ih hxs]

/-- URLs that a text lists are extracted again from them, with blanks between
them. -/
theorem extractUrls_join {urls : List Text} (h : Lists checks text urls) :
    extractUrls checks (join [' '] urls)=urls := by
  have hfind : urlRe.findAll (join [' '] urls)=urls :=
    Regex.findAll_intercalate readsRuns_urlRe (by decide) fun url hurl => (h.spec hurl).2.1
  have htrim : urls.map trimTrailingJunk=urls :=
    (List.map_congr_left fun url hurl => (h.spec hurl).2.2).trans (List.map_id urls)
  have hkeeps : urls.filter (keepsUrl checks)=urls :=
    List.filter_eq_self.mpr fun url hurl => (h.spec hurl).1
  rw [extractUrls,hfind,htrim,hkeeps,eraseDups_eq_self h.nodup]

/-- The extracted URLs are the found and kept ones, each once, by where they are
found first, and extraction from them gives them again. -/
theorem extractUrls_spec (checks : NetlocChecks) (text : Text) :
    Lists checks text (extractUrls checks text) ∧
      extractUrls checks (join [' '] (extractUrls checks text))=extractUrls checks text :=
  ⟨lists_extractUrls checks text,extractUrls_join (lists_extractUrls checks text)⟩

end Extraction

end ScamLens.UrlExtraction
