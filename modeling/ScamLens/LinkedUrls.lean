import ScamLens.ScrapedPosts

/-!
# Linked URLs of Reddit posts

Which URLs a loop of the scraper gets to, and which of them it sends to the
scanner. A Reddit post links to a URL of its own, which is left out when the
name of Reddit occurs anywhere in it, also in its path or its query. It is then
looked at only if the title or the body has it as well.
-/

namespace ScamLens.LinkedUrls

open EventRuns ExtractedUrls PythonText PythonUrls Resolver ScrapedPosts Services

section Loop

variable (checks : NetlocChecks) (scanner : Config) (threshold : ℤ) (source : Source)

/-- The pass behind a visit. -/
def visitStep (p : Pass) (v : Visit) : Pass :=
  (visitUrl checks scanner threshold source v.sourcePost v.outcomes p v.url).1

/-- The visits that a loop begins, each with the pass before it. -/
def begun : List Visit → Pass → List (Visit×Pass)
  | [],_ => []
  | v::visits,p =>
    let visited := visitUrl checks scanner threshold source v.sourcePost v.outcomes p v.url
    (v,p)::if visited.2 then begun visits visited.1 else []

/-- A visit that does not raise: its URL has no domain, or what is known of its
domain is told. -/
def Completes (p : Pass) (v : Visit) : Prop :=
  (urlToDomain checks v.url).contains '.'=true →
    (alreadyKnown v.outcomes p.site (urlToDomain checks v.url)).isSome=true

variable {checks scanner threshold source} {sourcePost url : Text} {o : Outcomes} {p : Pass}
  {visits : List Visit} {v : Visit}

/-- A visit counts its URL, and completes unless a read of the stores raises. -/
theorem visitUrl_spec (scanner : Config) (threshold : ℤ) (source : Source) (p : Pass) (v : Visit) :
    (visitStep checks scanner threshold source p v).stats.urlsSeen=p.stats.urlsSeen+1 ∧
      ((visitUrl checks scanner threshold source v.sourcePost v.outcomes p v.url).2=true ↔
        Completes checks p v) := by
  rw [visitStep,Completes]
  obtain ⟨hnot,hout,hdone⟩ | ⟨hdot,hknown,hdone,hcases⟩ :=
    visitUrl_cases checks scanner threshold source v.sourcePost v.url v.outcomes p
  · rw [hout]
    exact ⟨rfl,hdone⟩
  · refine ⟨?_,iff_of_true hdone fun _ => ?_⟩
    · rcases hcases with ⟨-,-,hout⟩ | ⟨-,hout⟩
      · rw [hout]
        rfl
      · rw [hout,(promote_frame _ _ _ _ _).2.2.2]
        cases source.asksScanner <;> rfl
    · rw [hknown]
      rfl

/-- A loop counts the visits it begins. -/
theorem visitUrls_urlsSeen : (visitUrls checks scanner threshold source visits p).1.stats.urlsSeen=
    p.stats.urlsSeen+(begun checks scanner threshold source visits p).length := by
  induction visits generalizing p with
  | nil => rfl
  | cons v visits ih =>
    have hseen : (visitUrl checks scanner threshold source v.sourcePost v.outcomes p
        v.url).1.stats.urlsSeen=p.stats.urlsSeen+1 := (visitUrl_spec scanner threshold source p v).1
    rw [visitUrls,begun]
    split
    · rw [ih,hseen,List.length_cons]
      omega
    · rw [hseen]
      rfl

/-- A loop sends the URLs of the visits it begins that have to be sent. -/
theorem visitUrls_sent : (visitUrls checks scanner threshold source visits p).1.sent=
    p.sent++((begun checks scanner threshold source visits p).filter fun x =>
      sends checks source x.1.outcomes x.2.site x.1.url).map fun x => x.1.url := by
  induction visits generalizing p with
  | nil => exact (List.append_nil p.sent).symm
  | cons v visits ih =>
    have hsent := (@visitUrl_effects checks scanner threshold source v.sourcePost v.url v.outcomes
      p).1
    have hhead (rest : List (Visit×Pass)) :
        ((v,p)::rest).filter (fun x => sends checks source x.1.outcomes x.2.site x.1.url)=
          (if sends checks source v.outcomes p.site v.url then [(v,p)] else [])++
            rest.filter fun x => sends checks source x.1.outcomes x.2.site x.1.url := by
      rw [List.filter_cons]
      split <;> rfl
    have hmap : (if sends checks source v.outcomes p.site v.url then [(v,p)] else []).map
        (fun x => x.1.url)=if sends checks source v.outcomes p.site v.url then [v.url] else [] := by
      split <;> rfl
    rw [visitUrls,begun]
    split
    · rw [ih,hsent,hhead,List.map_append,hmap,List.append_assoc]
    · rw [hsent,hhead,List.map_append,hmap,List.filter_nil,List.map_nil,List.append_nil]

/-- A loop gets to a URL exactly if all visits in front of it complete. -/
theorem mem_begun_iff : (∃ x∈begun checks scanner threshold source visits p, x.1.url=url) ↔
    url∈visits.map (·.url) ∧ Along (visitStep checks scanner threshold source) (Completes checks)
      p (visits.takeWhile (·.url≠url)) := by
  induction visits generalizing p with
  | nil =>
    refine ⟨?_,fun h => absurd h.1 List.not_mem_nil⟩
    rintro ⟨x,hx,-⟩
    exact absurd hx List.not_mem_nil
  | cons v visits ih =>
    by_cases hurl : v.url=url
    · rw [List.takeWhile_cons,if_neg (by simpa using hurl)]
      refine ⟨fun _ => ⟨?_,trivial⟩,fun _ => ?_⟩
      · rw [List.map_cons,hurl]
        exact List.mem_cons_self
      · rw [begun]
        exact ⟨(v,p),List.mem_cons_self,hurl⟩
    · have hdone := (@visitUrl_spec checks scanner threshold source p v).2
      rw [List.takeWhile_cons,if_pos (decide_eq_true hurl),List.map_cons,List.mem_cons,
        or_iff_right (Ne.symm hurl),along_cons,begun]
      simp only [List.mem_cons,exists_eq_or_imp,hurl,false_or]
      split
      · rename_i hcompletes
        rw [ih,and_iff_right (hdone.mp hcompletes)]
        rfl
      · rename_i hraises
        refine ⟨?_,fun h => absurd (hdone.mpr h.2.1) hraises⟩
        rintro ⟨x,hx,-⟩
        exact absurd hx List.not_mem_nil

end Loop

section Reddit

variable (checks : NetlocChecks) (scanner : Config) (threshold : ℤ) (post : RedditPost)
  (o : Text → Outcomes) (p : Pass)

/-- The visits of a Reddit post. -/
def redditVisits : List Visit := (post.urls checks).map fun url => ⟨url,post.permalink,o url⟩

/-- A URL of the web whose host has a dot and is neither Reddit nor below it. -/
structure External (url : Text) : Prop where
  /-- The URL has a scheme of the web. -/
  scheme : startsWithScheme (lower url)=true
  /-- Its host has a dot. -/
  dot : (urlToDomain checks url).contains '.'=true
  /-- Its host is not Reddit. -/
  foreign : urlToDomain checks url≠"reddit.com".toList
  /-- Its host is not below Reddit. -/
  outside : ¬".reddit.com".toList <:+ urlToDomain checks url

/-- A Reddit post has its linked URL counted, and sent to the scanner if its
domain turns out not to be known. -/
structure HandlesLinked : Prop where
  /-- The loop counts the URLs that it begins to visit. -/
  seen : (handleRedditPost checks scanner threshold post o p).1.stats.urlsSeen=
    p.stats.urlsSeen+
      (begun checks scanner threshold .reddit (redditVisits checks post o) p).length
  /-- The linked one is among them. -/
  counted : ∃ x∈begun checks scanner threshold .reddit (redditVisits checks post o) p,
    x.1.url=post.url
  /-- Where its domain is not known, it is sent. -/
  classified : ∀ x∈begun checks scanner threshold .reddit (redditVisits checks post o) p,
    x.1.url=post.url →
    alreadyKnown x.1.outcomes x.2.site (urlToDomain checks post.url)=some false →
    ∃ urls, (handleRedditPost checks scanner threshold post o p).1.sent=p.sent++urls ∧
      post.url∈urls

/-- The linked URL does not have the name of Reddit in it, or the title or the
body has it too and no read of the stores raises for a URL in front of it. -/
def LooksAtLinked : Prop :=
  contains "reddit.com".toList post.url=false ∨
    (post.url∈extractUrls checks post.title ∨ post.url∈extractUrls checks post.selftext) ∧
      Along (visitStep checks scanner threshold .reddit) (Completes checks) p
        ((redditVisits checks post o).takeWhile (·.url≠post.url))

variable {checks scanner threshold post o p}

/-- A linked URL without the name of Reddit comes first. -/
theorem urls_linked (hne : post.url≠[]) (h : contains "reddit.com".toList post.url=false) :
    ∃ later, post.urls checks=post.url::later := by
  have hempty : post.url.isEmpty=false := List.isEmpty_eq_false_iff.mpr hne
  rw [RedditPost.urls,hempty,h,Bool.not_false,Bool.and_self,if_pos rfl,List.singleton_append,
    List.cons_append,List.eraseDups_cons]
  exact ⟨_,rfl⟩

/-- With the name of Reddit in it, it is one of the URLs only by the title or
the body. -/
theorem mem_urls_iff (h : contains "reddit.com".toList post.url=true) :
    post.url∈post.urls checks ↔
      post.url∈extractUrls checks post.title ∨ post.url∈extractUrls checks post.selftext := by
  rw [RedditPost.urls,h,Bool.not_true,Bool.and_false,if_neg Bool.false_ne_true,List.nil_append,
    List.mem_eraseDups,List.mem_append]

/-- The loop gets to the linked URL exactly if it is looked at. -/
theorem begun_linked_iff (hne : post.url≠[]) :
    (∃ x∈begun checks scanner threshold .reddit (redditVisits checks post o) p,
      x.1.url=post.url) ↔ LooksAtLinked checks scanner threshold post o p := by
  have hmap : (redditVisits checks post o).map (·.url)=post.urls checks := by
    rw [redditVisits,List.map_map]
    exact List.map_id _
  rw [mem_begun_iff,hmap,LooksAtLinked]
  cases hcontains : contains "reddit.com".toList post.url with
  | false =>
    obtain ⟨later,hurls⟩ := @urls_linked checks post hne hcontains
    refine ⟨fun _ => .inl rfl,fun _ => ?_⟩
    rw [redditVisits,hurls,List.map_cons,List.takeWhile_cons,if_neg (by simp)]
    exact ⟨List.mem_cons_self,trivial⟩
  | true =>
    rw [mem_urls_iff hcontains]
    exact (or_iff_right (fun h => Bool.false_ne_true h.symm)).symm

/-- A Reddit post with a linked URL outside Reddit has it counted and classified
exactly if the URL does not have the name of Reddit in it, or is found in the
title or the body and no call raises in front of it. -/
theorem handlesLinked_iff (checks : NetlocChecks) (scanner : Config) (threshold : ℤ)
    (post : RedditPost) (o : Text → Outcomes) (p : Pass) (hlinked : External checks post.url) :
    HandlesLinked checks scanner threshold post o p ↔
      LooksAtLinked checks scanner threshold post o p := by
  have hne : post.url≠[] := by
    intro h
    have hscheme := hlinked.scheme
    rw [h] at hscheme
    exact absurd hscheme (by decide)
  rw [←@begun_linked_iff checks scanner threshold post o p hne]
  refine ⟨HandlesLinked.counted,fun h => ⟨visitUrls_urlsSeen,h,fun x hx hurl hknown => ?_⟩⟩
  have hsent : (handleRedditPost checks scanner threshold post o p).1.sent=_ := visitUrls_sent
  refine ⟨_,hsent,?_⟩
  rw [←hurl]
  refine List.mem_map_of_mem (List.mem_filter.mpr ⟨hx,?_⟩)
  rw [sends,hurl,hlinked.dot,hknown]
  rfl

/-- Calls that all succeed. -/
private def answering : Outcomes := ⟨true,true,none,0,none,true⟩

/-- A pass that starts with empty stores. -/
private def emptyPass : Pass := ⟨Deployment.init,{},[],[]⟩

/-- A URL of a foreign host is classified. -/
theorem handlesLinked_plain :
    HandlesLinked ⟨fun _ => true,fun _ => true⟩ defaultConfig 70
      ⟨"p".toList,[],[],"https://evil.com/login".toList⟩ (fun _ => answering) emptyPass :=
  (handlesLinked_iff ⟨fun _ => true,fun _ => true⟩ defaultConfig 70
    ⟨"p".toList,[],[],"https://evil.com/login".toList⟩ (fun _ => answering) emptyPass
    ⟨by decide +kernel,by decide +kernel,by decide +kernel,by decide +kernel⟩).mpr
      (.inl (by decide +kernel))

/-- The name of Reddit in its path hides it: nothing is counted or sent. -/
theorem handlesLinked_hidden :
    External ⟨fun _ => true,fun _ => true⟩ "https://evil.com/reddit.com".toList ∧
    (handleRedditPost ⟨fun _ => true,fun _ => true⟩ defaultConfig 70
      ⟨"p".toList,[],[],"https://evil.com/reddit.com".toList⟩ (fun _ => answering) emptyPass).1=
        emptyPass ∧
    ¬HandlesLinked ⟨fun _ => true,fun _ => true⟩ defaultConfig 70
      ⟨"p".toList,[],[],"https://evil.com/reddit.com".toList⟩ (fun _ => answering) emptyPass := by
  have hurls : RedditPost.urls ⟨fun _ => true,fun _ => true⟩
      ⟨"p".toList,[],[],"https://evil.com/reddit.com".toList⟩=[] := by
    decide +kernel
  refine ⟨⟨by decide +kernel,by decide +kernel,by decide +kernel,by decide +kernel⟩,?_,fun h => ?_⟩
  · rw [handleRedditPost,hurls]
    rfl
  · obtain ⟨x,hx,-⟩ := h.counted
    rw [redditVisits,hurls] at hx
    exact absurd hx List.not_mem_nil

end Reddit

end ScamLens.LinkedUrls
