import ScamLens.ProfileUrls
import ScamLens.PythonUrls
import ScamLens.Resolver

/-!
# Keys that the list writers store

A domain gets into a list through an admin form, a report or a scraped post,
each with a normalization of its own. What a writer makes of a pasted address
is the name that the resolver looks up, unless a part of the address that the
writer does not expect is in the way: a port, or a trailing dot.
-/

namespace ScamLens.ListKeys

open DomainEntries ProfileUrls PythonText PythonUrls Resolver Upstream UrlSyntax

/-- A DNS host name in lower case and without its trailing dot. -/
structure DnsName where
  /-- The name. -/
  name : Text
  /-- Labels are letters, digits and hyphens. -/
  chars : ∀ c∈name, c = '.' ∨ isHostChar c=true
  /-- No label is empty. -/
  labels : []∉name.splitOn '.'

/-- A way to write a host name. -/
structure Spelling (d : DnsName) where
  /-- The name in any letter case. -/
  letters : Text
  /-- The letters are those of the name. -/
  same : letters.map Char.toLower=d.name
  /-- Whether a trailing dot follows. -/
  dot : Bool

/-- The trailing dot. -/
def dotText (dot : Bool) : Text := if dot then ['.'] else []

/-- The spelling as it is written. -/
def Spelling.text {d : DnsName} (h : Spelling d) : Text := h.letters++dotText h.dot

/-- What stands in front of the host of a pasted address. -/
inductive Scheme where
  /-- Nothing. -/
  | bare
  /-- `http://`. -/
  | http
  /-- `https://`. -/
  | https
  deriving DecidableEq

/-- The scheme as it is written. -/
def Scheme.text : Scheme → Text
  | .bare => []
  | .http => "http://".toList
  | .https => "https://".toList

/-- A pasted address of a host. -/
structure PastedUrl (d : DnsName) where
  /-- Scheme. -/
  scheme : Scheme
  /-- Host. -/
  host : Spelling d
  /-- Port, if there is one. -/
  port : Option Text
  /-- A port has a digit and nothing else. -/
  portDigits : ∀ digits∈port, digits≠[] ∧ digits.all isAsciiDigit=true
  /-- Path, if there is one. -/
  path : Text
  /-- A path starts with a slash and ends in front of a query. -/
  pathForm : path=[] ∨ (path.head?=some '/' ∧ '?'∉path)
  /-- Query, if there is one. -/
  query : Text
  /-- A query starts with a question mark. -/
  queryForm : query=[] ∨ query.head?=some '?'

namespace PastedUrl

variable {d : DnsName} (url : PastedUrl d)

/-- The port with its colon. -/
def portText : Text := url.port.elim [] fun digits => ':'::digits

/-- What follows the host. -/
def back : Text := url.portText++(url.path++url.query)

/-- The address as it is written. -/
def text : Text := url.scheme.text++(url.host.text++url.back)

end PastedUrl

/-- The writers of the lists. -/
inductive Writer where
  /-- `add_blocklist` and `add_whitelist`, with the reason of the form. -/
  | domainEntry (reason : Option Text)
  /-- `report`, with the note of the form. -/
  | reportRequest (note : Option Text)
  /-- The scraper. -/
  | scraper

/-- The domain of a scraped address, none when the scraper goes on to the next
one. -/
def scrapedDomain (checks : NetlocChecks) (url : Text) : Option Text :=
  let domain := urlToDomain checks url
  if domain=[] ∨ '.'∉domain then none else some domain

/-- The domain that a writer stores for a text, none when it is not accepted. -/
def stored (checks : NetlocChecks) : Writer → Text → Option Text
  | .domainEntry reason,raw => domainEntry raw reason
  | .reportRequest note,raw => reportDomain raw note
  | .scraper,raw => scrapedDomain checks raw

/-- A stored domain is the key of a host name: the name in lower case, which
every query for the host is matched by, and which deleting it finds. -/
def IsKey (d : DnsName) (key : Text) : Prop :=
  key=d.name ∧
    (∀ (h : Spelling d) (request : DNSRecord), request.qname=h.text → questionName request=key) ∧
    pathDomain key=key

/-- What a writer does not expect is not in an address. -/
def PastedUrl.Clean {d : DnsName} (url : PastedUrl d) : Writer → Prop
  | .domainEntry _ => url.port=none ∧ (url.host.dot=true → url.path=[] ∧ url.query=[])
  | .reportRequest _ => url.port=none
  | .scraper => url.host.dot=false

section Spellings

variable {d : DnsName} (h : Spelling d)

theorem DnsName.ne_nil (d : DnsName) : d.name≠[] := by
  intro he
  have hlabels := d.labels
  rw [he] at hlabels
  exact hlabels (List.mem_singleton_self [])

/-- Letters of a spelling are canonical, or in upper case. -/
theorem Spelling.chars {c : Char} (hc : c∈h.letters) :
    c = '.' ∨ isHostChar c=true ∨ ('A' ≤ c ∧ c ≤ 'Z') := by
  have hlow : c.toLower∈d.name := h.same ▸ List.mem_map_of_mem hc
  rcases toLower_cases c with hself|⟨h65,h90,-⟩
  · rw [hself] at hlow
    exact (d.chars c hlow).imp id Or.inl
  · exact Or.inr (Or.inr ⟨h65,h90⟩)

/-- A spelling lower-cases to its name, letter by letter. -/
theorem Spelling.lower_letters : lower h.letters=d.name := by
  have hchar : ∀ c∈h.letters, lowerChar c=[c.toLower] := by
    intro c hc
    have hn := canonical_toNat (d.chars _ (h.same ▸ List.mem_map_of_mem hc : c.toLower∈d.name))
    refine lowerChar_ascii ?_
    rcases toLower_cases c with hself|⟨-,h90,-⟩
    · rw [hself] at hn
      omega
    · omega
  have hall : lower h.letters=h.letters.map Char.toLower := by
    rw [lower,List.flatMap_congr hchar]
    exact List.map_eq_flatMap.symm
  rw [hall,h.same]

/-- A dot lower-cases to itself. -/
theorem lower_dotText (dot : Bool) : lower (dotText dot)=dotText dot := by
  cases dot <;> rfl

theorem Spelling.lower_text : lower h.text=d.name++dotText h.dot := by
  rw [text,lower_append,h.lower_letters,lower_dotText]

/-- Stripping dots takes the trailing dot. -/
theorem rstrip_dotText {front : Text} (hlast : ∀ c∈front.getLast?, c≠ '.') (dot : Bool) :
    rstripChar '.' (front++dotText dot)=front := by
  have hdots : (dotText dot).rdropWhile (· == '.')=[] := by cases dot <;> rfl
  rw [rstripChar,rdropWhile_append _ fun c hc => beq_false_of_ne (hlast c hc),hdots,
    List.append_nil]

/-- A name does not end with a dot. -/
theorem DnsName.getLast_ne (d : DnsName) : ∀ c∈d.name.getLast?, c≠ '.' := by
  intro c hc
  rw [List.getLast?_eq_some_getLast d.ne_nil] at hc
  rw [←Option.some.inj hc]
  exact getLast_ne_dot d.labels d.ne_nil

/-- The letters of a spelling do not end with a dot. -/
theorem Spelling.getLast_ne : ∀ c∈h.letters.getLast?, c≠ '.' := by
  intro c hc hdot
  refine d.getLast_ne '.' ?_ rfl
  rw [←h.same,List.getLast?_map,Option.mem_def.mp hc,hdot]
  rfl

/-- The written host has the code points of a configured one. -/
def Spelling.plainHost : PlainHost where
  name := h.text
  chars := by
    intro c hc
    rcases List.mem_append.mp hc with hc|hc
    · exact h.chars hc
    · cases hdot : h.dot with
      | false =>
        rw [hdot] at hc
        exact absurd hc List.not_mem_nil
      | true =>
        rw [hdot] at hc
        exact Or.inl (List.mem_singleton.mp hc)
  nonempty := by
    intro hnil
    have hletters : h.letters=[] := (List.append_eq_nil_iff.mp hnil).1
    have hsame := h.same
    rw [hletters,List.map_nil] at hsame
    exact d.ne_nil hsame.symm

/-- The code points of a written host by number. -/
theorem Spelling.toNat_of_mem {c : Char} (hc : c∈h.text) :
    c.toNat=46 ∨ (97 ≤ c.toNat ∧ c.toNat≤122) ∨ (48 ≤ c.toNat ∧ c.toNat≤57) ∨ c.toNat=45 ∨
      (65 ≤ c.toNat ∧ c.toNat≤90) :=
  h.plainHost.toNat_of_mem hc

/-- A written host has no other code points. -/
theorem Spelling.ne_of_mem {c e : Char} (hc : c∈h.text) (he : ¬(e.toNat=46 ∨
    (97 ≤ e.toNat ∧ e.toNat≤122) ∨ (48 ≤ e.toNat ∧ e.toNat≤57) ∨ e.toNat=45 ∨
      (65 ≤ e.toNat ∧ e.toNat≤90))) : c≠e :=
  fun heq => he (heq ▸ h.toNat_of_mem hc)

theorem Spelling.text_ne_nil : h.text≠[] := h.plainHost.nonempty

/-- A written host has no white space. -/
theorem Spelling.isSpace {c : Char} (hc : c∈h.text) : isSpace c=false := by
  have hn := h.toNat_of_mem hc
  exact isSpace_eq_false (by omega) (by omega)

/-- Every query for a host is matched by its name. -/
theorem questionName_text {request : DNSRecord} (hq : request.qname=h.text) :
    questionName request=d.name := by
  rw [questionName,hq,Spelling.text,rstrip_dotText h.getLast_ne,h.lower_letters]

/-- The name is found when it is deleted. -/
theorem pathDomain_name (d : DnsName) : pathDomain d.name=d.name := by
  have hstrip : strip d.name=d.name :=
    strip_eq_self fun c hc => canonical_isSpace (d.chars c hc)
  have hlower : lower d.name=d.name := lower_eq_self fun c hc => canonical_lowerChar (d.chars c hc)
  have hrstrip : rstripChar '.' (d.name++dotText false)=d.name := rstrip_dotText d.getLast_ne false
  rw [dotText,if_neg Bool.false_ne_true,List.append_nil] at hrstrip
  rw [pathDomain,hstrip,hlower,hrstrip]

/-- A stored domain is the key exactly when it is the name. -/
theorem isKey_iff {key : Text} : IsKey d key ↔ key=d.name := by
  refine ⟨fun hkey => hkey.1,fun hkey => ?_⟩
  rw [hkey]
  exact ⟨rfl,fun h request hq => questionName_text h hq,pathDomain_name d⟩

end Spellings

section Backs

/-- A digit, or one of the delimiters behind a host. -/
def isMark (c : Char) : Bool := isAsciiDigit c || c == ':' || c == '/' || c == '?'

/-- A pass over a text that leaves digits and delimiters at its start alone. -/
def Keeps (f : Text → Text) : Prop := f []=[] ∧ ∀ c s, isMark c=true → f (c::s)=c::f s

/-- The text behind a host starts with no port. -/
def NoPort (back : Text) : Prop := ∀ c∈back.head?, c = '/' ∨ c = '?'

/-- The text behind a host starts with a port. -/
def Ported (back : Text) : Prop := ∃ c s, back= ':'::c::s ∧ isAsciiDigit c=true

variable {f g : Text → Text} {back : Text}

theorem Keeps.comp (hg : Keeps g) (hf : Keeps f) : Keeps (g ∘ f) := by
  refine ⟨?_,fun c s hc => ?_⟩
  · rw [Function.comp_apply,hf.1,hg.1]
  · rw [Function.comp_apply,hf.2 c s hc,hg.2 c (f s) hc]
    rfl

/-- Digits and delimiters by number. -/
theorem isMark_toNat {c : Char} (h : isMark c=true) :
    (48 ≤ c.toNat ∧ c.toNat≤57) ∨ c.toNat=58 ∨ c.toNat=47 ∨ c.toNat=63 := by
  simp only [isMark,isAsciiDigit,Bool.or_eq_true,Bool.and_eq_true,decide_eq_true_eq,
    beq_iff_eq] at h
  rcases h with ((h|rfl)|rfl)|rfl
  · exact Or.inl h
  · exact Or.inr (Or.inl rfl)
  · exact Or.inr (Or.inr (Or.inl rfl))
  · exact Or.inr (Or.inr (Or.inr rfl))

/-- Dropping other symbols from the end leaves digits and delimiters alone. -/
theorem keeps_rdropWhile {p : Char → Bool} (hp : ∀ c, isMark c=true → p c=false) :
    Keeps (List.rdropWhile p) := by
  refine ⟨List.rdropWhile_nil _,fun c s hc => ?_⟩
  have happend := rdropWhile_append p (fun d hd => by
    rw [←Option.some.inj hd]
    exact hp c hc : ∀ d∈[c].getLast?, p d=false) s
  exact happend

theorem keeps_strip : Keeps (List.rdropWhile isSpace) := by
  refine keeps_rdropWhile fun c hc => ?_
  have hn := isMark_toNat hc
  rw [Bool.eq_false_iff]
  intro hs
  simp only [isSpace,Bool.or_eq_true,Bool.and_eq_true,decide_eq_true_eq,beq_iff_eq] at hs
  omega

theorem keeps_rstrip : Keeps (rstripChar '.') := by
  refine keeps_rdropWhile fun c hc => beq_false_of_ne fun he => ?_
  rw [he] at hc
  exact absurd hc (by decide)

theorem keeps_lower : Keeps lower := by
  refine ⟨rfl,fun c s hc => ?_⟩
  have hlow : lowerChar c=[c] := by
    simp only [isMark,Bool.or_eq_true,beq_iff_eq] at hc
    rcases hc with ((hc|rfl)|rfl)|rfl
    · simp only [isAsciiDigit,Bool.and_eq_true,decide_eq_true_eq] at hc
      have hdigit : (decide (48 ≤ c.toNat) && decide (c.toNat≤57))=true := by
        simp only [Bool.and_eq_true,decide_eq_true_eq]
        exact hc
      have hhost : isHostChar c=true := by
        have hself : c.isDigit=true := hdigit
        rw [isHostChar,hself,Bool.or_true,Bool.true_or]
      exact canonical_lowerChar (Or.inr hhost)
    all_goals rfl
  rw [lower,List.flatMap_cons,hlow]
  rfl

theorem keeps_clean : Keeps (List.filter (!isUnsafe ·)) := by
  refine ⟨rfl,fun c s hc => List.filter_cons_of_pos ?_⟩
  rw [Bool.not_eq_true',Bool.eq_false_iff]
  intro hu
  simp only [isUnsafe,Bool.or_eq_true,beq_iff_eq] at hu
  rcases hu with (rfl|rfl)|rfl <;> exact absurd hc (by decide)

/-- A path or a query stays one. -/
theorem Keeps.noPort (hf : Keeps f) (h : NoPort back) : NoPort (f back) := by
  cases back with
  | nil =>
    rw [hf.1]
    exact h
  | cons c s =>
    have hmark : isMark c=true := by
      rcases h c rfl with rfl|rfl <;> decide
    rw [hf.2 c s hmark]
    exact h

/-- A port stays one. -/
theorem Keeps.ported (hf : Keeps f) (h : Ported back) : Ported (f back) := by
  obtain ⟨c,s,rfl,hc⟩ := h
  have hmark : isMark c=true := by
    rw [isMark,hc]
    rfl
  rw [hf.2 ':' _ rfl,hf.2 c s hmark]
  exact ⟨c,f s,rfl,hc⟩

/-- What starts with a mark stays something. -/
theorem Keeps.ne_nil (hf : Keeps f) (h : NoPort back ∨ Ported back) (hne : back≠[]) :
    f back≠[] := by
  obtain ⟨c,s,rfl⟩ := List.exists_cons_of_ne_nil hne
  have hmark : isMark c=true := by
    rcases h with hno|⟨e,t,he,-⟩
    · rcases hno c rfl with rfl|rfl <;> decide
    · rw [(List.cons.inj he).1]
      decide
  rw [hf.2 c s hmark]
  exact List.cons_ne_nil _ _

end Backs

section Passes

/-- A host has no delimiters. -/
def PlainText (host : Text) : Prop := ∀ c∈host, c≠ ':' ∧ c≠ '/' ∧ c≠ '?'

variable {host back : Text}

/-- The first piece of a split is what is in front of the first separator. -/
theorem headD_splitOn (sep : Char) (s : Text) :
    (s.splitOn sep).headD []=s.takeWhile (· != sep) := by
  induction s with
  | nil => rfl
  | cons c s ih =>
    rw [List.splitOn_cons_eq_if_modifyHead]
    by_cases hc : c=sep
    · rw [if_pos (beq_iff_eq.mpr hc),List.takeWhile_cons_of_neg (by simp [hc])]
      rfl
    · have hkeep : (c != sep)=true := bne_iff_ne.mpr hc
      rw [if_neg (by simp [hc]),List.takeWhile_cons,if_pos hkeep,←ih]
      obtain ⟨first,rest,hs⟩ := List.exists_cons_of_ne_nil (List.splitOn_ne_nil sep s)
      rw [hs]
      rfl

theorem hostPart_eq (v : Text) :
    hostPart v=(v.takeWhile (· != '/')).takeWhile (· != '?') := by
  rw [hostPart,headD_splitOn,headD_splitOn]

/-- A path or a query is cut off. -/
theorem hostPart_append (hhost : PlainText host) (hback : NoPort back) :
    hostPart (host++back)=host := by
  rw [hostPart_eq]
  cases back with
  | nil =>
    rw [List.append_nil,List.takeWhile_eq_self_iff.mpr fun c hc => bne_iff_ne.mpr (hhost c hc).2.1]
    exact List.takeWhile_eq_self_iff.mpr fun c hc => bne_iff_ne.mpr (hhost c hc).2.2
  | cons d s =>
    rw [List.takeWhile_append_of_pos fun c hc => bne_iff_ne.mpr (hhost c hc).2.1]
    have hstop : ∀ c∈((d::s).takeWhile (· != '/')).head?, (c != '?')=false := by
      rcases hback d rfl with rfl|rfl
      · rw [List.takeWhile_cons_of_neg (by decide)]
        exact fun c hc => by cases hc
      · rw [List.takeWhile_cons_of_pos (by decide)]
        exact fun c hc => by cases hc; rfl
    exact (takeWhile_append_stop (· != '?') (fun c hc => bne_iff_ne.mpr (hhost c hc).2.2) hstop).1

/-- A port is not cut off. -/
theorem colon_mem_hostPart (hhost : PlainText host) (hback : Ported back) :
    ':'∈hostPart (host++back) := by
  obtain ⟨c,s,rfl,-⟩ := hback
  rw [hostPart_eq,List.takeWhile_append_of_pos fun c hc => bne_iff_ne.mpr (hhost c hc).2.1,
    List.takeWhile_append_of_pos fun c hc => bne_iff_ne.mpr (hhost c hc).2.2,
    List.takeWhile_cons_of_pos (by decide),List.takeWhile_cons_of_pos (by decide)]
  exact List.mem_append_right _ List.mem_cons_self

/-- A host does not start with a scheme. -/
theorem not_scheme (letters : Text) (hletters : PlainText letters) (hhost : PlainText host)
    (hback : NoPort back ∨ Ported back) :
    (letters++"://".toList).isPrefixOf (host++back)=false := by
  rw [Bool.eq_false_iff]
  intro h
  obtain ⟨rest,hrest⟩ := List.isPrefixOf_iff_prefix.mp h
  have hplain : ∀ {s : Text}, PlainText s →
      ∀ c∈s, (c != ':' && c != '/' && c != '?')=true := by
    intro s hs c hc
    have hne := hs c hc
    simp only [Bool.and_eq_true,bne_iff_ne]
    exact ⟨⟨hne.1,hne.2.1⟩,hne.2.2⟩
  have hdelimiter : ∀ c∈back.head?, (c != ':' && c != '/' && c != '?')=false := by
    intro c hc
    rcases hback with hno|⟨d,s,rfl,-⟩
    · rcases hno c hc with rfl|rfl <;> rfl
    · cases hc
      rfl
  have hright := (takeWhile_append_stop _ (hplain hhost) hdelimiter).2
  have hleft := (takeWhile_append_stop (fun c => c != ':' && c != '/' && c != '?')
    (hplain hletters) (show ∀ c∈("://".toList++rest).head?, _=false from
      fun c hc => by cases hc; rfl)).2
  rw [←List.append_assoc,hrest,hright] at hleft
  rcases hback with hno|⟨d,s,hs,hd⟩
  · rw [hleft] at hno
    rcases hno ':' rfl with he|he <;> exact absurd he (by decide)
  · rw [hs] at hleft
    have hslash : d = '/' := (List.cons.inj (List.cons.inj hleft).2).1
    rw [hslash] at hd
    exact absurd hd (by decide)

/-- The scheme is dropped, and nothing else. -/
theorem dropScheme_text (scheme : Scheme) (hhost : PlainText host)
    (hback : NoPort back ∨ Ported back) : dropScheme (scheme.text++(host++back))=host++back := by
  have hhttp : "http://".toList.isPrefixOf (host++back)=false :=
    not_scheme "http".toList (by rw [PlainText]; decide) hhost hback
  have hhttps : "https://".toList.isPrefixOf (host++back)=false :=
    not_scheme "https".toList (by rw [PlainText]; decide) hhost hback
  have hself : ∀ {p v : Text}, p.isPrefixOf v=false → dropPrefix p v=v := by
    intro p v hp
    rw [dropPrefix,hp,if_neg Bool.false_ne_true]
  have hdropped : ∀ p : Text, dropPrefix p (p++(host++back))=host++back := by
    intro p
    rw [dropPrefix,if_pos (List.isPrefixOf_iff_prefix.mpr (List.prefix_append _ _)),
      List.drop_left]
  cases scheme with
  | bare =>
    have htext : Scheme.bare.text++(host++back)=host++back := rfl
    rw [htext,dropScheme,hself hhttps,hself hhttp]
  | http =>
    have htext : Scheme.http.text="http://".toList := rfl
    have hother : "https://".toList.isPrefixOf ("http://".toList++(host++back))=false := rfl
    rw [htext,dropScheme,hself hother,hdropped]
  | https =>
    have htext : Scheme.https.text="https://".toList := rfl
    rw [htext,dropScheme,hdropped,hself hhttp]

end Passes

section Writers

variable {d : DnsName} (url : PastedUrl d)

/-- Path and query start with their delimiters. -/
theorem PastedUrl.noPort_tail : NoPort (url.path++url.query) := by
  intro c hc
  rw [List.head?_append,Option.mem_def,Option.or_eq_some_iff] at hc
  rcases hc with hpath|⟨-,hquery⟩
  · rcases url.pathForm with hnil|hslash
    · rw [hnil] at hpath
      cases hpath
    · exact Or.inl (Option.some.inj (hpath.symm.trans hslash.1))
  · rcases url.queryForm with hnil|hmark
    · rw [hnil] at hquery
      cases hquery
    · exact Or.inr (Option.some.inj (hquery.symm.trans hmark))

/-- Without a port the path or the query follows the host. -/
theorem PastedUrl.noPort (h : url.port=none) : NoPort url.back := by
  rw [back,portText,h]
  exact url.noPort_tail

/-- A port follows the host. -/
theorem PastedUrl.ported {digits : Text} (h : url.port=some digits) : Ported url.back := by
  obtain ⟨hne,hdigits⟩ := url.portDigits digits h
  obtain ⟨c,rest,rfl⟩ := List.exists_cons_of_ne_nil hne
  rw [back,portText,h]
  exact ⟨c,rest++(url.path++url.query),rfl,List.all_eq_true.mp hdigits c List.mem_cons_self⟩

/-- Nothing follows the host. -/
theorem PastedUrl.back_eq_nil :
    url.back=[] ↔ url.port=none ∧ url.path=[] ∧ url.query=[] := by
  rw [back,List.append_eq_nil_iff,List.append_eq_nil_iff,portText]
  cases url.port with
  | none => simp only [Option.elim_none]
  | some digits => simp only [Option.elim_some,reduceCtorEq]

theorem PastedUrl.back_form : NoPort url.back ∨ Ported url.back := by
  cases h : url.port with
  | none => exact Or.inl (url.noPort h)
  | some digits => exact Or.inr (url.ported h)

/-- A name and its dot are plain. -/
theorem plainText_name (d : DnsName) (dot : Bool) : PlainText (d.name++dotText dot) := by
  have hnot : ∀ c∈d.name++dotText dot, ∀ e : Char, ¬(e = '.' ∨ isHostChar e=true) → c≠e := by
    intro c hc e he heq
    rw [heq] at hc
    rcases List.mem_append.mp hc with hname|hdot
    · exact he (d.chars e hname)
    · cases dot with
      | false => exact List.not_mem_nil hdot
      | true => exact he (Or.inl (List.mem_singleton.mp hdot))
  exact fun c hc => ⟨hnot c hc ':' (by decide),hnot c hc '/' (by decide),hnot c hc '?' (by decide)⟩

/-- What the first two passes make of an address. -/
theorem lower_strip_text :
    lower (strip url.text)=
      url.scheme.text++((d.name++dotText url.host.dot)++
        (lower ∘ List.rdropWhile isSpace) url.back) := by
  have hscheme : (∀ c∈url.scheme.text, isSpace c=false) ∧
      lower url.scheme.text=url.scheme.text := by
    cases url.scheme <;> exact ⟨by decide,by decide⟩
  have hspace : ∀ c∈url.scheme.text++url.host.text, isSpace c=false := by
    intro c hc
    exact (List.mem_append.mp hc).elim (hscheme.1 c) url.host.isSpace
  have hne : url.scheme.text++url.host.text≠[] := fun hnil =>
    url.host.text_ne_nil (List.append_eq_nil_iff.mp hnil).2
  rw [PastedUrl.text,←List.append_assoc,strip_append hne hspace,lower_append,lower_append,
    hscheme.2,url.host.lower_text,List.append_assoc]
  rfl

/-- What the next pass makes of an address with something behind the host. -/
theorem rstrip_append {front back : Text} (hne : back≠[]) (hback : NoPort back ∨ Ported back) :
    rstripChar '.' (front++back)=front++rstripChar '.' back := by
  obtain ⟨c,s,rfl⟩ := List.exists_cons_of_ne_nil hne
  have hc : c≠ '.' := by
    intro hdot
    rw [hdot] at hback
    rcases hback with hno|⟨e,t,he,-⟩
    · rcases hno '.' rfl with he|he <;> exact absurd he (by decide)
    · exact absurd (List.cons.inj he).1 (by decide)
  have hlast : ∀ e∈(front++[c]).getLast?, (e == '.')=false := by
    intro e he
    rw [List.getLast?_concat] at he
    rw [←Option.some.inj he]
    exact beq_false_of_ne hc
  have hfront := rdropWhile_append (· == '.') hlast s
  have hself := rdropWhile_append (· == '.') (fun e he => by
    rw [←Option.some.inj he]
    exact beq_false_of_ne hc : ∀ e∈[c].getLast?, (e == '.')=false) s
  rw [List.append_assoc] at hfront
  rw [rstripChar,rstripChar,show c::s=[c]++s from rfl,hfront,hself,List.append_assoc]

/-- The domain of a list form: the name, with its dot when something follows. -/
theorem domainEntry_text {reason : Option Text} {key : Text}
    (h : domainEntry url.text reason=some key) :
    (url.back=[] → key=d.name) ∧
    (url.back≠[] → url.port=none → key=d.name++dotText url.host.dot) ∧
    (url.port≠none → ':'∈key) := by
  rw [domainEntry,Option.ite_none_right_eq_some,lower_strip_text] at h
  have hkey := (Option.some.inj h.2).symm
  have hkeeps : Keeps (lower ∘ List.rdropWhile isSpace) := keeps_lower.comp keeps_strip
  have hrest := keeps_rstrip.comp hkeeps
  have hplain := plainText_name d url.host.dot
  have hstripped : url.back≠[] → rstripChar '.' (url.scheme.text++((d.name++
      dotText url.host.dot)++(lower ∘ List.rdropWhile isSpace) url.back))=
      url.scheme.text++((d.name++dotText url.host.dot)++
        (rstripChar '.' ∘ lower ∘ List.rdropWhile isSpace) url.back) := by
    intro hne
    have hform := url.back_form.imp hkeeps.noPort hkeeps.ported
    rw [←List.append_assoc,rstrip_append (hkeeps.ne_nil url.back_form hne) hform,
      List.append_assoc]
    rfl
  refine ⟨fun hnil => ?_,fun hne hport => ?_,fun hport => ?_⟩
  · have hname : rstripChar '.' (url.scheme.text++((d.name++dotText url.host.dot)++[]))=
        url.scheme.text++(d.name++[]) := by
      have hlast : ∀ c∈(url.scheme.text++d.name).getLast?, c≠ '.' := by
        intro c hc
        rw [List.getLast?_append_of_ne_nil _ d.ne_nil] at hc
        exact d.getLast_ne c hc
      have hdot := rstrip_dotText hlast url.host.dot
      rw [List.append_nil,List.append_nil,←List.append_assoc,hdot]
    have hno : NoPort [] := fun c hc => by cases hc
    have hplainName : PlainText (d.name++dotText false) := plainText_name d false
    rw [dotText,if_neg Bool.false_ne_true,List.append_nil] at hplainName
    rw [hkey,hnil,hkeeps.1,hname,dropScheme_text _ hplainName (Or.inl hno),
      hostPart_append hplainName hno]
  · have hno := hrest.noPort (url.noPort hport)
    rw [hkey,hstripped hne,dropScheme_text _ hplain (Or.inl hno),hostPart_append hplain hno]
  · obtain ⟨digits,hdigits⟩ := Option.ne_none_iff_exists'.mp hport
    have hported := hrest.ported (url.ported hdigits)
    have hne : url.back≠[] := fun hnil => hport (url.back_eq_nil.mp hnil).1
    rw [hkey,hstripped hne,dropScheme_text _ hplain (Or.inr hported)]
    exact colon_mem_hostPart hplain hported

/-- The domain of a report: the name. -/
theorem reportDomain_text {note : Option Text} {key : Text}
    (h : reportDomain url.text note=some key) :
    (url.port=none → key=d.name) ∧ (url.port≠none → ':'∈key) := by
  rw [reportDomain,Option.ite_none_right_eq_some,lower_strip_text] at h
  have hkey := (Option.some.inj h.2).symm
  have hkeeps : Keeps (lower ∘ List.rdropWhile isSpace) := keeps_lower.comp keeps_strip
  have hplain := plainText_name d url.host.dot
  rw [dropScheme_text _ hplain (url.back_form.imp hkeeps.noPort hkeeps.ported)] at hkey
  refine ⟨fun hport => ?_,fun hport => ?_⟩
  · rw [hkey,hostPart_append hplain (hkeeps.noPort (url.noPort hport)),
      rstrip_dotText d.getLast_ne]
  · obtain ⟨digits,hdigits⟩ := Option.ne_none_iff_exists'.mp hport
    have hcolon := colon_mem_hostPart hplain (hkeeps.ported (url.ported hdigits))
    rw [hkey]
    exact mem_rstripChar (by decide) hcolon

/-- A host is visible. -/
theorem Spelling.visible (h : Spelling d) {c : Char} (hc : c∈h.text) : 32 < c.toNat := by
  have hn := h.toNat_of_mem hc
  omega

/-- Without two slashes at its start there is no authority. -/
theorem splitNetloc_of_head (checks : NetlocChecks) {rest : Text} (h : rest.head?≠some '/') :
    splitNetloc checks rest=some [] := by
  refine if_neg fun hprefix => h ?_
  obtain ⟨more,rfl⟩ := List.isPrefixOf_iff_prefix.mp hprefix
  rfl

/-- A host without a scheme is not taken for one with a path or a query behind
it, and what follows its colon is a port. -/
theorem head?_dropUrlScheme {host back : Text} (hplain : PlainText host) (hne : host≠[])
    (hback : NoPort back ∨ Ported back) : (dropUrlScheme (host++back)).head?≠some '/' := by
  have hhead : (host++back).head?≠some '/' := by
    obtain ⟨c,s,rfl⟩ := List.exists_cons_of_ne_nil hne
    exact fun he => (hplain c List.mem_cons_self).2.1 (Option.some.inj he)
  have hcolon : ∀ c∈host, (c != ':')=true := fun c hc => bne_iff_ne.mpr (hplain c hc).1
  rw [dropUrlScheme]
  split
  · rename_i hcut
    rcases hback with hno|⟨e,t,rfl,he⟩
    · cases back with
      | nil =>
        rw [List.append_nil] at hcut
        exact absurd rfl (hplain ':' hcut.1).1
      | cons c s =>
        have hall := List.all_eq_true.mp hcut.2.2 c (by
          rw [List.takeWhile_append_of_pos hcolon]
          refine List.mem_append_right _ ?_
          rcases hno c rfl with rfl|rfl <;> exact List.mem_cons_self)
        rcases hno c rfl with rfl|rfl <;> exact absurd hall (by decide)
    · have hfront : (host++ ':'::e::t).takeWhile (· != ':')=host :=
        (takeWhile_append_stop (· != ':') hcolon (fun c hc => by cases hc; rfl)).1
      rw [hfront,List.drop_length_add_append]
      intro hslash
      rw [show e= '/' from Option.some.inj hslash] at he
      exact absurd he (by decide)
  · exact hhead

/-- Without a scheme the scraper finds no authority. -/
theorem urlToDomain_bare (checks : NetlocChecks) (hscheme : url.scheme=.bare) :
    urlToDomain checks url.text=[] := by
  have hplain : PlainText url.host.text := fun c hc =>
    ⟨url.host.ne_of_mem hc (by decide),url.host.ne_of_mem hc (by decide),
      url.host.ne_of_mem hc (by decide)⟩
  have hform := url.back_form.imp keeps_clean.noPort keeps_clean.ported
  have htext : url.text=url.host.text++url.back := by
    rw [PastedUrl.text,hscheme]
    rfl
  have hnetloc : netloc checks url.text=some [] := by
    rw [netloc,htext,cleanUrl_append url.host.text_ne_nil fun c => url.host.visible]
    exact splitNetloc_of_head checks (head?_dropUrlScheme hplain url.host.text_ne_nil hform)
  rw [urlToDomain,hnetloc]
  rfl

/-- The code points of host and port by number. -/
theorem PastedUrl.authority_toNat {c : Char} (hc : c∈url.host.text++url.portText) :
    (45 ≤ c.toNat ∧ c.toNat≤46) ∨ (48 ≤ c.toNat ∧ c.toNat≤58) ∨
      (65 ≤ c.toNat ∧ c.toNat≤90) ∨ (97 ≤ c.toNat ∧ c.toNat≤122) := by
  rcases List.mem_append.mp hc with hhost|hport
  · have hn := url.host.toNat_of_mem hhost
    omega
  · rw [portText] at hport
    cases h : url.port with
    | none =>
      rw [h] at hport
      exact absurd hport List.not_mem_nil
    | some digits =>
      rw [h] at hport
      rcases List.mem_cons.mp hport with rfl|hdigit
      · exact Or.inr (Or.inl (by decide))
      · have hdigits := List.all_eq_true.mp (url.portDigits digits h).2 c hdigit
        simp only [isAsciiDigit,Bool.and_eq_true,decide_eq_true_eq] at hdigits
        have hn : 48 ≤ c.toNat ∧ c.toNat≤57 := hdigits
        omega

/-- Nothing in host and port is a delimiter of an authority. -/
theorem PastedUrl.ne_of_mem_authority {c e : Char} (hc : c∈url.host.text++url.portText)
    (he : ¬((45 ≤ e.toNat ∧ e.toNat≤46) ∨ (48 ≤ e.toNat ∧ e.toNat≤58) ∨
      (65 ≤ e.toNat ∧ e.toNat≤90) ∨ (97 ≤ e.toNat ∧ e.toNat≤122))) : c≠e :=
  fun heq => he (heq ▸ url.authority_toNat hc)

/-- With a scheme the scraper finds host and port. -/
theorem netloc_web (checks : NetlocChecks) (hscheme : url.scheme≠.bare) :
    netloc checks url.text=some (url.host.text++url.portText) := by
  have hweb : ∃ letters, (letters="http".toList ∨ letters="https".toList) ∧
      url.scheme.text=letters++ ':'::"//".toList := by
    cases h : url.scheme with
    | bare => exact absurd h hscheme
    | http => exact ⟨_,Or.inl rfl,by decide⟩
    | https => exact ⟨_,Or.inr rfl,by decide⟩
  obtain ⟨letters,hletters,hscheme⟩ := hweb
  have htext : url.text=(url.scheme.text++(url.host.text++url.portText))++
      (url.path++url.query) := by
    rw [PastedUrl.text,PastedUrl.back]
    simp only [List.append_assoc]
  have hvisible : ∀ c∈url.scheme.text++(url.host.text++url.portText), 32 < c.toNat := by
    intro c hc
    rcases List.mem_append.mp hc with hc|hc
    · have hall : ∀ c∈url.scheme.text, 32 < c.toNat := by
        cases url.scheme <;> decide
      exact hall c hc
    · have hn := url.authority_toNat hc
      omega
  have hne : url.scheme.text++(url.host.text++url.portText)≠[] := by
    rw [hscheme]
    exact List.append_ne_nil_of_left_ne_nil (List.append_ne_nil_of_right_ne_nil _
      (List.cons_ne_nil _ _)) _
  have hplain : ∀ c∈url.host.text++url.portText,
      c.toNat<128 ∧ endsAuthority c=false ∧ c≠ '[' ∧ c≠ ']' := by
    intro c hc
    have hn := url.authority_toNat hc
    refine ⟨by omega,?_,url.ne_of_mem_authority hc (by decide),
      url.ne_of_mem_authority hc (by decide)⟩
    rw [endsAuthority,beq_false_of_ne (url.ne_of_mem_authority hc (by decide)),
      beq_false_of_ne (url.ne_of_mem_authority hc (by decide)),
      beq_false_of_ne (url.ne_of_mem_authority hc (by decide))]
    rfl
  have hback : ∀ c∈((url.path++url.query).filter (!isUnsafe ·)).head?, endsAuthority c=true := by
    intro c hc
    rcases keeps_clean.noPort url.noPort_tail c hc with rfl|rfl <;> rfl
  have hsplit := splitNetloc_plain checks hplain hback
  have hdropped := dropUrlScheme_web hletters
    ("//".toList++((url.host.text++url.portText)++(url.path++url.query).filter (!isUnsafe ·)))
  rw [netloc,htext,cleanUrl_append hne hvisible,hscheme]
  simp only [List.append_assoc,List.cons_append] at hdropped hsplit ⊢
  rw [hdropped,hsplit]

/-- With a scheme the scraper finds the name with its dot. -/
theorem urlToDomain_web (checks : NetlocChecks) (hscheme : url.scheme≠.bare) :
    urlToDomain checks url.text=d.name++dotText url.host.dot := by
  have hplain : ∀ c∈url.host.text++url.portText, c≠ '@' ∧ c≠ '[' ∧ c≠ '%' := fun c hc =>
    ⟨url.ne_of_mem_authority hc (by decide),url.ne_of_mem_authority hc (by decide),
      url.ne_of_mem_authority hc (by decide)⟩
  have hcolon : ':'∉url.host.text := fun hc => url.host.ne_of_mem hc (by decide) rfl
  have hport : ∀ c∈url.portText.head?, c = ':' := by
    rw [PastedUrl.portText]
    cases url.port with
    | none => exact fun c hc => by cases hc
    | some digits => exact fun c hc => by cases hc; rfl
  have hlower : lower d.name=d.name := lower_eq_self fun c hc => canonical_lowerChar (d.chars c hc)
  rw [urlToDomain,netloc_web url checks hscheme,Option.map_some,Option.getD_some,
    hostname_plain hplain hcolon hport,url.host.lower_text,lower_append,hlower,lower_dotText]

/-- Every writer stores the key of the host exactly for the addresses without
the parts that it does not expect. -/
theorem stored_isKey_iff (checks : NetlocChecks) (w : Writer) {key : Text}
    (h : stored checks w url.text=some key) : IsKey d key ↔ url.Clean w := by
  have hcolon : ':'∉d.name := by
    have hplain := plainText_name d false
    exact fun hc => (hplain ':' (List.mem_append_left _ hc)).1 rfl
  have hdotted : ∀ dot : Bool, d.name++dotText dot=d.name ↔ dot=false := by
    intro dot
    rw [List.append_right_eq_self]
    cases dot <;> simp [dotText]
  rw [isKey_iff]
  cases w with
  | domainEntry reason =>
    obtain ⟨hnil,hback,hport⟩ := domainEntry_text url h
    rw [PastedUrl.Clean]
    have hempty := url.back_eq_nil
    by_cases hnone : url.port=none
    · by_cases hb : url.back=[]
      · exact iff_of_true (hnil hb) ⟨hnone,fun _ => (hempty.mp hb).2⟩
      · rw [hback hb hnone,hdotted]
        have hrest : ¬(url.path=[] ∧ url.query=[]) := fun hrest => hb (hempty.mpr ⟨hnone,hrest⟩)
        rw [←Bool.not_eq_true]
        exact ⟨fun hdot => ⟨hnone,fun h => absurd h hdot⟩,fun hclean hdot => hrest (hclean.2 hdot)⟩
    · refine iff_of_false (fun hkey => ?_) (fun hclean => hnone hclean.1)
      exact hcolon (hkey ▸ hport hnone)
  | reportRequest note =>
    obtain ⟨hnone,hport⟩ := reportDomain_text url h
    rw [PastedUrl.Clean]
    refine ⟨fun hkey => ?_,hnone⟩
    by_contra hne
    exact hcolon (hkey ▸ hport hne)
  | scraper =>
    have hweb : url.scheme≠.bare := by
      intro hbare
      rw [stored,scrapedDomain,urlToDomain_bare url checks hbare] at h
      cases h
    rw [stored,scrapedDomain,urlToDomain_web url checks hweb,Option.ite_none_left_eq_some] at h
    rw [←Option.some.inj h.2,hdotted,PastedUrl.Clean]

end Writers

/-- A host name. -/
def evilName : DnsName where
  name := "evil.example".toList
  chars := hostChars_of_all (by decide)
  labels := by decide

/-- An address of it, with a port. -/
def evilUrl : PastedUrl evilName where
  scheme := .https
  host := ⟨"Evil.Example".toList,by decide,false⟩
  port := some "8443".toList
  portDigits := fun digits h => by
    rw [←Option.some.inj h]
    decide
  path := "/login".toList
  pathForm := by decide
  query := []
  queryForm := by decide

/-- The scraper stores the key of this address, in which there is no trailing
dot. -/
theorem scraper_stores_key : IsKey evilName "evil.example".toList ↔ evilUrl.Clean .scraper :=
  stored_isKey_iff evilUrl ⟨fun _ => true,fun _ => true⟩ .scraper (by decide +kernel)

/-- A list form accepts an address with a port, and stores a domain that no
query for the host is matched by. -/
theorem port_in_blocklist : ¬∀ (checks : NetlocChecks) (d : DnsName) (url : PastedUrl d)
    (w : Writer) (key : Text), stored checks w url.text=some key → IsKey d key := by
  intro h
  have hstored : stored ⟨fun _ => true,fun _ => true⟩ (.domainEntry none) evilUrl.text=
      some "evil.example:8443".toList := by decide +kernel
  have hkey := (h _ evilName evilUrl _ _ hstored).1
  exact absurd hkey (by decide)

end ScamLens.ListKeys
