import ScamLens.UrlSyntax

/-!
# Host names by Python's `urllib.parse`

`urlparse` is not the generic syntax: it drops some code points first, takes a
scheme only when all of its code points are allowed, and looks for an
authority only behind two slashes. The host name is in lower case except
behind a percent sign.
-/

namespace ScamLens.PythonUrls

open PythonText UrlSyntax

/-- Checks of an authority that raise: of what is between brackets, and of
code points that normalize to a delimiter. -/
structure NetlocChecks where
  /-- `_check_bracketed_netloc` -/
  bracketed : Text → Bool
  /-- `_checknetloc`, of an authority with a code point that is not ASCII. -/
  normalized : Text → Bool

/-- `_WHATWG_C0_CONTROL_OR_SPACE` -/
def isC0OrSpace (c : Char) : Bool := c.toNat≤32

/-- `_UNSAFE_URL_BYTES_TO_REMOVE` -/
def isUnsafe (c : Char) : Bool := c == '\t' || c == '\r' || c == '\n'

/-- An ASCII letter. -/
def isAsciiLetter (c : Char) : Bool := ('a' ≤ c && c ≤ 'z') || ('A' ≤ c && c ≤ 'Z')

/-- `scheme_chars` -/
def isSchemeChar (c : Char) : Bool :=
  isAsciiLetter c || isAsciiDigit c || c == '+' || c == '-' || c == '.'

/-- A URL behind its scheme, if it has one. -/
def dropUrlScheme (url : Text) : Text :=
  let front := url.takeWhile (· != ':')
  if ':'∈url ∧ front.head?.any isAsciiLetter ∧ front.all isSchemeChar then
    url.drop (front.length+1)
  else url

/-- The code points of a URL that `urlsplit` reads. -/
def cleanUrl (url : Text) : Text := (url.dropWhile isC0OrSpace).filter (!isUnsafe ·)

/-- The authority in front of the rest of a URL, none when a check raises. -/
def splitNetloc (checks : NetlocChecks) (rest : Text) : Option Text :=
  if "//".toList.isPrefixOf rest then
    let found := (rest.drop 2).takeWhile (!endsAuthority ·)
    if ('['∈found ∧ ']'∉found) ∨ (']'∈found ∧ '['∉found) then none
    else if '['∈found ∧ !checks.bracketed found then none
    else if found.any (fun c => 128 ≤ c.toNat) ∧ !checks.normalized found then none
    else some found
  else some []

/-- `urlsplit(url).netloc`, none when it raises. -/
def netloc (checks : NetlocChecks) (url : Text) : Option Text :=
  splitNetloc checks (dropUrlScheme (cleanUrl url))

/-- `SplitResult.hostname`, empty for None. -/
def hostname (netloc : Text) : Text :=
  let hostinfo := hostPort netloc
  let host :=
    if '['∈hostinfo then ((hostinfo.dropWhile (· != '[')).drop 1).takeWhile (· != ']')
    else hostinfo.takeWhile (· != ':')
  lower (host.takeWhile (· != '%'))++host.dropWhile (· != '%')

/-- `url_to_domain` -/
def urlToDomain (checks : NetlocChecks) (url : Text) : Text :=
  ((netloc checks url).map fun found => lower (hostname found)).getD []

example : urlToDomain ⟨fun _ => true,fun _ => true⟩ " https://u:p@Evil.Example.:80/a".toList=
    "evil.example.".toList := by
  decide +kernel

/-- Visible code points are read. -/
theorem cleanUrl_append {front back : Text} (hne : front≠[]) (h : ∀ c∈front, 32 < c.toNat) :
    cleanUrl (front++back)=front++back.filter (!isUnsafe ·) := by
  have hkept : front.filter (!isUnsafe ·)=front := by
    refine List.filter_eq_self.mpr fun c hc => ?_
    have hn := h c hc
    rw [Bool.not_eq_true',Bool.eq_false_iff]
    intro hu
    simp only [isUnsafe,Bool.or_eq_true,beq_iff_eq] at hu
    rcases hu with (rfl|rfl)|rfl <;> exact absurd hn (by decide)
  have hstart : (front++back).dropWhile isC0OrSpace=front++back := by
    obtain ⟨c,rest,rfl⟩ := List.exists_cons_of_ne_nil hne
    have hc := h c List.mem_cons_self
    refine List.dropWhile_cons_of_neg ?_
    simp only [isC0OrSpace,decide_eq_true_eq]
    omega
  rw [cleanUrl,hstart,List.filter_append,hkept]

/-- The schemes of the web are dropped. -/
theorem dropUrlScheme_web {scheme : Text} (hs : scheme="http".toList ∨ scheme="https".toList)
    (rest : Text) : dropUrlScheme (scheme++ ':'::rest)=rest := by
  have hchars : ':'∉scheme ∧ scheme.head?.any isAsciiLetter=true ∧
      scheme.all isSchemeChar=true := by
    rcases hs with rfl|rfl <;> exact ⟨by decide,by decide,by decide⟩
  have hfront : (scheme++ ':'::rest).takeWhile (· != ':')=scheme :=
    (takeWhile_append_stop (· != ':')
      (fun c hc => bne_iff_ne.mpr fun he => hchars.1 (he ▸ hc))
      (fun c hc => by cases hc; rfl)).1
  have hmem : ':'∈scheme++ ':'::rest := List.mem_append_right _ List.mem_cons_self
  rw [dropUrlScheme,hfront,if_pos ⟨hmem,hchars.2⟩,List.drop_length_add_append]
  rfl

/-- An authority of plain code points passes the checks. -/
theorem splitNetloc_plain (checks : NetlocChecks) {authority hier : Text}
    (ha : ∀ c∈authority, c.toNat<128 ∧ endsAuthority c=false ∧ c≠ '[' ∧ c≠ ']')
    (hh : ∀ c∈hier.head?, endsAuthority c=true) :
    splitNetloc checks ("//".toList++(authority++hier))=some authority := by
  have hfound : (authority++hier).takeWhile (!endsAuthority ·)=authority :=
    (takeWhile_append_stop (!endsAuthority ·) (fun c hc => by rw [(ha c hc).2.1]; rfl)
      (fun c hc => by rw [hh c hc]; rfl)).1
  have hopen : '['∉authority := fun h => (ha _ h).2.2.1 rfl
  have hclose : ']'∉authority := fun h => (ha _ h).2.2.2 rfl
  have hascii : authority.any (fun c => 128 ≤ c.toNat)=false := by
    refine List.any_eq_false.mpr fun c hc => ?_
    have hn := (ha c hc).1
    simp only [decide_eq_true_eq]
    omega
  have hprefix : "//".toList.isPrefixOf ("//".toList++(authority++hier))=true :=
    List.isPrefixOf_iff_prefix.mpr (List.prefix_append _ _)
  have hdrop : ("//".toList++(authority++hier)).drop 2=authority++hier := rfl
  rw [splitNetloc,if_pos hprefix,hdrop,hfound]
  simp [hopen,hclose,hascii]

/-- An authority that passes the checks ends where the path starts. -/
theorem eq_of_splitNetloc {checks : NetlocChecks} {rest found : Text}
    (h : splitNetloc checks ("//".toList++rest)=some found) :
    found=rest.takeWhile (!endsAuthority ·) := by
  have hfront : "//".toList.isPrefixOf ("//".toList++rest)=true :=
    List.isPrefixOf_iff_prefix.mpr (List.prefix_append _ _)
  have hdrop : ("//".toList++rest).drop 2=rest := rfl
  rw [splitNetloc,if_pos hfront,hdrop] at h
  dsimp only at h
  split_ifs at h
  exact (Option.some.inj h).symm

/-- A host name of plain code points is read up to its port. -/
theorem hostname_plain {host port : Text} (hplain : ∀ c∈host++port, c≠ '@' ∧ c≠ '[' ∧ c≠ '%')
    (hcolon : ':'∉host) (hport : ∀ c∈port.head?, c = ':') :
    hostname (host++port)=lower host := by
  have hat : '@'∉host++port := fun h => (hplain _ h).1 rfl
  have hinfo : hostPort ([]++(host++port))=_ := hostPort_append hat
  have hall : hostPort (host++port)=host++port := hinfo
  have hbracket : '['∉host++port := fun h => (hplain _ h).2.1 rfl
  have hfront : (host++port).takeWhile (· != ':')=host :=
    (takeWhile_append_stop (· != ':') (fun c hc => bne_iff_ne.mpr fun he => hcolon (he ▸ hc))
      (fun c hc => by rw [hport c hc]; rfl)).1
  have hpercent : ∀ c∈host, (c != '%')=true := fun c hc =>
    bne_iff_ne.mpr (hplain c (List.mem_append_left _ hc)).2.2
  rw [hostname,hall,if_neg hbracket,hfront]
  rw [List.takeWhile_eq_self_iff.mpr hpercent,List.dropWhile_eq_nil_iff.mpr hpercent,
    List.append_nil]

end ScamLens.PythonUrls
