import ScamLens.DomainEntries
import ScamLens.UrlSyntax

/-!
# The server address of a configuration profile

The token of a setup link is spliced into the address of the profile as the
first label of the host, unvalidated. The address is then whatever a parser
makes of it. It points home for tokens that stay within one label, and for
those that spell the rest of a home address themselves.
-/

namespace ScamLens.ProfileUrls

open DomainEntries PythonText UrlSyntax

/-- Protocols of the DNS settings payload. -/
inductive Protocol where
  | https
  | tls
  deriving DecidableEq

/-- `ProfileSpec` -/
structure ProfileSpec where
  /-- Organization. -/
  org : Text
  /-- Reverse-DNS base of the identifiers. -/
  identifier : Text
  /-- Host name of the server. -/
  dnsHostname : Text
  /-- Protocol. -/
  protocol : Protocol := .https
  /-- Path of the DoH endpoint. -/
  dohPath : Text := "/dns-query".toList
  /-- Token of the user, empty for none. -/
  dohToken : Text := []
  /-- Fallback addresses. -/
  serverAddresses : List Text := []
  /-- Domains that bypass the server. -/
  prohibitedDomains : List Text := []
  /-- Whether the user may remove the profile. -/
  allowRemoval : Bool := true

/-- The `DNSSettings` dictionary. -/
structure DnsSettings where
  /-- `DNSProtocol`. -/
  dnsProtocol : Text
  /-- `ServerURL`. -/
  serverUrl : Option Text
  /-- `ServerName`. -/
  serverName : Option Text
  /-- `ServerAddresses`. -/
  serverAddresses : List Text
  /-- `ProhibitedDNSDomains`. -/
  prohibitedDomains : List Text
  deriving DecidableEq

/-- The profile, apart from its UUIDs. -/
structure Profile where
  /-- `PayloadDisplayName`. -/
  displayName : Text
  /-- `PayloadDescription`. -/
  description : Text
  /-- Base of both `PayloadIdentifier`s. -/
  identifier : Text
  /-- `PayloadOrganization`. -/
  organization : Text
  /-- `PayloadRemovalDisallowed`. -/
  removalDisallowed : Bool
  /-- `DNSSettings` of the payload. -/
  dnsSettings : DnsSettings
  deriving DecidableEq

/-- Code points that a property list can not contain. -/
def isControl (c : Char) : Bool :=
  c.toNat<9 || c.toNat==11 || c.toNat==12 || (14 ≤ c.toNat && c.toNat<32)

/-- A text behind its way through a property list: line ends are line feeds. -/
def plistText : Text → Text
  | [] => []
  | c::s =>
    if c = '\r' then '\n'::(if s.head?=some '\n' then (plistText s).drop 1 else plistText s)
    else c::plistText s

/-- The texts of a profile. -/
def Profile.texts (p : Profile) : List Text :=
  [p.displayName,p.description,p.identifier,p.organization,p.dnsSettings.dnsProtocol]++
    p.dnsSettings.serverUrl.toList++p.dnsSettings.serverName.toList++
    p.dnsSettings.serverAddresses++p.dnsSettings.prohibitedDomains

/-- Rewrite the texts of a profile. -/
def Profile.mapTexts (p : Profile) (f : Text → Text) : Profile where
  displayName := f p.displayName
  description := f p.description
  identifier := f p.identifier
  organization := f p.organization
  removalDisallowed := p.removalDisallowed
  dnsSettings :=
    { dnsProtocol := f p.dnsSettings.dnsProtocol
      serverUrl := p.dnsSettings.serverUrl.map f
      serverName := p.dnsSettings.serverName.map f
      serverAddresses := p.dnsSettings.serverAddresses.map f
      prohibitedDomains := p.dnsSettings.prohibitedDomains.map f }

/-- What a reader gets of `plistlib.dumps`, none when it raises. -/
def dumps (p : Profile) : Option Profile :=
  if p.texts.any fun text => text.any isControl then none else some (p.mapTexts plistText)

/-- `_describe` -/
def describe (spec : ProfileSpec) : Text :=
  match spec.protocol with
  | .https => "Configures DNS-over-HTTPS to ".toList++spec.dnsHostname
  | .tls => "Configures DNS-over-TLS to ".toList++spec.dnsHostname

/-- The host of the address: the token, if there is one, in front of the
configured name. -/
def profileHost (spec : ProfileSpec) : Text :=
  if spec.dohToken=[] then spec.dnsHostname else spec.dohToken++ '.'::spec.dnsHostname

/-- The dictionary that `build_profile` assembles. -/
def profileDict (spec : ProfileSpec) : Profile where
  displayName := spec.org++" Protection".toList
  description := describe spec
  identifier := spec.identifier
  organization := spec.org
  removalDisallowed := !spec.allowRemoval
  dnsSettings :=
    { dnsProtocol := match spec.protocol with
        | .https => "HTTPS".toList
        | .tls => "TLS".toList
      serverUrl := match spec.protocol with
        | .https => some ("https://".toList++profileHost spec++spec.dohPath)
        | .tls => none
      serverName := match spec.protocol with
        | .https => none
        | .tls => some spec.dnsHostname
      serverAddresses := spec.serverAddresses
      prohibitedDomains := spec.prohibitedDomains }

/-- `build_profile` -/
def buildProfile (spec : ProfileSpec) : Option Profile := dumps (profileDict spec)

/-- The specification of `build_mobileconfig`. -/
def mobileconfigSpec (dnsHostname org identifier : Text) (dohToken : Option Text) :
    ProfileSpec where
  org := org
  identifier := identifier
  dnsHostname := dnsHostname
  dohToken := dohToken.getD []

/-- `build_mobileconfig`, as `setup_ios` calls it with the query parameter. -/
def buildMobileconfig (dnsHostname org identifier : Text) (dohToken : Option Text) :
    Option Profile :=
  buildProfile (mobileconfigSpec dnsHostname org identifier dohToken)

/-- A configured host name: letters, digits, hyphens and dots. -/
structure PlainHost where
  /-- The name. -/
  name : Text
  /-- It has no other code points. -/
  chars : ∀ c∈name, c = '.' ∨ isHostChar c=true ∨ ('A' ≤ c ∧ c ≤ 'Z')
  /-- It is not empty. -/
  nonempty : name≠[]

/-- Hosts are compared without regard to case. -/
def asciiLower (s : Text) : Text := s.map Char.toLower

/-- The configured host, or one label in front of it. -/
def HomeHost (dns host : Text) : Prop :=
  asciiLower host=asciiLower dns ∨
    ∃ label, label≠[] ∧ '.'∉label ∧ asciiLower host=label++ '.'::asciiLower dns

/-- The address is an https one of the configured server, with the DoH path. -/
def PointsHome (dns url : Text) : Prop :=
  ∃ u, parseUrl url=some u ∧ u.scheme="https".toList ∧ HomeHost dns u.host ∧
    u.path="/dns-query".toList

/-- One label of the characters of a host name. -/
def PlainLabel (s : Text) : Prop :=
  s≠[] ∧ ∀ c∈s, isRegName c=true ∧ c≠ '.'

/-- The authority names the configured server. -/
def HomeAuthority (dns authority : Text) : Prop :=
  ∃ userinfo host port, splitAuthority authority=some (userinfo,host,port) ∧ HomeHost dns host

/-- The token is empty; or it has no delimiter that ends an authority, and is
one label behind its user information, if it has any; or it spells an authority
of the configured server and the path, and cuts the rest off as a query or a
fragment. -/
def TokenOk (dns token : Text) : Prop :=
  token=[] ∨
  ((∀ c∈token, endsAuthority c=false) ∧ isUserinfo (userinfoOf token)=true ∧
    PlainLabel (hostPort token)) ∨
  ∃ authority delimiter rest,
    token=authority++"/dns-query".toList++delimiter::rest ∧
    (∀ c∈authority, endsAuthority c=false) ∧ endsPath delimiter=true ∧
    isHier (delimiter::rest)=true ∧ HomeAuthority dns authority

section Texts

/-- Line ends are rewritten piece by piece. -/
theorem plistText_append {s t : Text} (ht : t.head?≠some '\n') :
    plistText (s++t)=plistText s++plistText t := by
  induction s with
  | nil => rfl
  | cons c s ih =>
    rw [List.cons_append,plistText,plistText,ih]
    by_cases hc : c = '\r'
    · rw [if_pos hc,if_pos hc,List.cons_append]
      cases s with
      | nil =>
        rw [List.nil_append,if_neg ht,List.head?_nil,if_neg (by simp)]
      | cons d s =>
        rw [List.cons_append,List.head?_cons,List.head?_cons]
        split
        · rename_i hd
          rw [plistText,if_neg (by rw [Option.some.inj hd]; decide)]
          rfl
        · rfl
    · rw [if_neg hc,if_neg hc,List.cons_append]

/-- A text without carriage returns is left alone in front of any other. -/
theorem plistText_of_append {s : Text} (h : '\r'∉s) (t : Text) :
    plistText (s++t)=s++plistText t := by
  induction s with
  | nil => rfl
  | cons c s ih =>
    rw [List.mem_cons,not_or] at h
    rw [List.cons_append,plistText,if_neg (Ne.symm h.1),ih h.2,List.cons_append]

/-- A text without carriage returns is left alone. -/
theorem plistText_eq_self {s : Text} (h : '\r'∉s) : plistText s=s := by
  have hself := plistText_of_append h []
  rwa [List.append_nil,plistText,List.append_nil] at hself

/-- Only the empty text becomes empty. -/
theorem plistText_eq_nil {s : Text} : plistText s=[] ↔ s=[] := by
  cases s with
  | nil => exact Iff.rfl
  | cons c s =>
    rw [plistText]
    split <;> simp only [reduceCtorEq]

end Texts

section Hosts

variable (dns : PlainHost)

/-- The code points of a configured name by number. -/
theorem PlainHost.toNat_of_mem {c : Char} (h : c∈dns.name) :
    c.toNat=46 ∨ (97 ≤ c.toNat ∧ c.toNat≤122) ∨ (48 ≤ c.toNat ∧ c.toNat≤57) ∨ c.toNat=45 ∨
      (65 ≤ c.toNat ∧ c.toNat≤90) := by
  rcases dns.chars c h with hdot|hhost|hupper
  · have hn := canonical_toNat (Or.inl hdot)
    omega
  · have hn := canonical_toNat (Or.inr hhost)
    omega
  · have hbounds : 65 ≤ c.toNat ∧ c.toNat≤90 := hupper
    omega

/-- A configured name has none of the other code points. -/
theorem PlainHost.not_mem {c : Char} (hc : ¬(c.toNat=46 ∨ (97 ≤ c.toNat ∧ c.toNat≤122) ∨
    (48 ≤ c.toNat ∧ c.toNat≤57) ∨ c.toNat=45 ∨ (65 ≤ c.toNat ∧ c.toNat≤90))) : c∉dns.name :=
  fun h => hc (dns.toNat_of_mem h)

/-- A configured name does not end an authority. -/
theorem PlainHost.endsAuthority {c : Char} (h : c∈dns.name) : endsAuthority c=false := by
  rw [Bool.eq_false_iff]
  intro he
  simp only [UrlSyntax.endsAuthority,Bool.or_eq_true,beq_iff_eq] at he
  rcases he with (rfl|rfl)|rfl <;> exact absurd h (dns.not_mem (by decide))

/-- Letters and digits are characters of a host name. -/
theorem isRegName_of_isAlphanum {c : Char}
    (h : c.isUpper=true ∨ c.isLower=true ∨ c.isDigit=true) : isRegName c=true := by
  have halphanum : c.isAlphanum=true := by
    change (c.isUpper || c.isLower || c.isDigit)=true
    rcases h with h|h|h <;> simp [h]
  rw [isRegName,isUnreserved,halphanum]
  rfl

/-- A configured name has the characters of one. -/
theorem PlainHost.isRegName {c : Char} (h : c∈dns.name) : isRegName c=true := by
  rcases dns.chars c h with rfl|hhost|hupper
  · rfl
  · simp only [isHostChar,Bool.or_eq_true,beq_iff_eq] at hhost
    rcases hhost with (hlower|hdigit)|rfl
    · exact isRegName_of_isAlphanum (.inr (.inl hlower))
    · exact isRegName_of_isAlphanum (.inr (.inr hdigit))
    · rfl
  · have hu : c.isUpper=true := decide_eq_true hupper
    exact isRegName_of_isAlphanum (.inl hu)

/-- The characters of a host name are none of the delimiters of an authority. -/
theorem not_delimiter_of_isRegName {c : Char} (h : UrlSyntax.isRegName c=true) :
    c≠ '@' ∧ c≠ ':' ∧ c≠ '[' ∧ c≠ ']' := by
  refine ⟨?_,?_,?_,?_⟩ <;> rintro rfl <;> exact absurd h (by decide)

/-- A configured name can be in a property list. -/
theorem PlainHost.isControl {c : Char} (h : c∈dns.name) : isControl c=false := by
  have hn := dns.toNat_of_mem h
  rw [Bool.eq_false_iff]
  intro he
  simp only [ProfileUrls.isControl,Bool.or_eq_true,Bool.and_eq_true,decide_eq_true_eq,
    beq_iff_eq] at he
  omega

/-- A dot stays a dot without regard to case, and nothing else becomes one. -/
theorem dot_mem_asciiLower {s : Text} : '.'∈asciiLower s ↔ '.'∈s := by
  rw [asciiLower,List.mem_map]
  constructor
  · intro h
    obtain ⟨c,hc,hl⟩ := h
    rwa [toLower_eq_dot_iff.mp hl] at hc
  · intro h
    exact ⟨_,h,toLower_eq_dot_iff.mpr rfl⟩

/-- What has a dot is no port. -/
theorem splitPort_append (x y : Text) : splitPort (x++ '.'::y)=none := by
  cases x with
  | nil => rfl
  | cons c x =>
    have hdigits : (x++ '.'::y).all isAsciiDigit=false := by
      rw [List.all_append,List.all_cons]
      exact Bool.and_false _
    rw [List.cons_append,splitPort,hdigits,Bool.and_false]
    rfl

/-- So does what is put in front of it. -/
theorem PlainHost.isRegName_cons {c : Char} (h : c∈ '.'::dns.name) :
    UrlSyntax.isRegName c=true := by
  rcases List.mem_cons.mp h with rfl|h
  · rfl
  · exact dns.isRegName h

/-- Nothing in a configured name is a delimiter of an authority. -/
theorem PlainHost.plain {c : Char} (h : c∈ '.'::dns.name) :
    c≠ '@' ∧ c≠ ':' ∧ c≠ '[' ∧ c≠ ']' :=
  not_delimiter_of_isRegName (dns.isRegName_cons h)

/-- A part of a text with a bracket in front of a configured name is no host. -/
theorem splitHostPort_bracket {hp : Text} (h : hasBracket hp=true) :
    splitHostPort (hp++ '.'::dns.name)=none := by
  have hbracket : hasBracket (hp++ '.'::dns.name)=true := by
    rw [hasBracket,List.any_append,Bool.or_eq_true]
    exact Or.inl h
  rw [splitHostPort,if_pos hbracket]
  dsimp only
  split
  · rename_i hform
    have hclosing : ']'∈hp := by
      by_contra hno
      refine hform.2.2 (List.takeWhile_eq_self_iff.mpr fun c hc => bne_iff_ne.mpr ?_)
      rcases List.mem_append.mp hc with hc|hc
      · exact fun he => hno (he ▸ hc)
      · exact (dns.plain hc).2.2.2
    have hshort : (hp.takeWhile (· != ']')).length≠hp.length := by
      intro hlength
      have hself := (List.takeWhile_prefix (· != ']')).eq_of_length hlength
      exact bne_iff_ne.mp (List.takeWhile_eq_self_iff.mp hself _ hclosing) rfl
    have hle : (hp.takeWhile (· != ']')).length≤hp.length :=
      (List.takeWhile_prefix _).length_le
    rw [List.takeWhile_append,if_neg hshort,List.drop_append_of_le_length (by omega),
      splitPort_append]
    rfl
  · rfl

/-- A text without brackets in front of a configured name is a host when it
has the characters of one. -/
theorem splitHostPort_append {hp : Text} (h : hasBracket hp=false) :
    splitHostPort (hp++ '.'::dns.name)=
      if hp.all UrlSyntax.isRegName then some (hp++ '.'::dns.name,none) else none := by
  have hbracket : hasBracket (hp++ '.'::dns.name)=false := by
    rw [hasBracket,List.any_append,Bool.or_eq_false_iff]
    refine ⟨h,List.any_eq_false.mpr fun c hc => ?_⟩
    simp only [Bool.or_eq_true,beq_iff_eq,not_or]
    exact (dns.plain hc).2.2
  have hname : ('.'::dns.name).all UrlSyntax.isRegName=true :=
    List.all_eq_true.mpr fun c hc => dns.isRegName_cons hc
  rw [splitHostPort,hbracket,if_neg Bool.false_ne_true]
  by_cases hcolon : ':'∈hp
  · have hrest : (hp.dropWhile (· != ':')).isEmpty=false := by
      rw [Bool.eq_false_iff,ne_eq,List.isEmpty_iff,List.dropWhile_eq_nil_iff]
      exact fun hall => bne_iff_ne.mp (hall _ hcolon) rfl
    have hno : ¬hp.all UrlSyntax.isRegName=true := fun hall =>
      absurd (List.all_eq_true.mp hall _ hcolon) (by decide)
    rw [if_neg hno,List.dropWhile_append,hrest,if_neg Bool.false_ne_true,splitPort_append]
    split <;> rfl
  · have hall : ∀ c∈hp++ '.'::dns.name, (c != ':')=true := by
      intro c hc
      rw [bne_iff_ne]
      rcases List.mem_append.mp hc with hc|hc
      · exact fun he => hcolon (he ▸ hc)
      · exact (dns.plain hc).2.1
    rw [List.dropWhile_eq_nil_iff.mpr hall,List.takeWhile_eq_self_iff.mpr hall,List.all_append,
      hname,Bool.and_true]
    rfl

/-- A text in front of a configured name makes a host of the server exactly
when it is one label. -/
theorem homeHost_append {label : Text} :
    HomeHost dns.name (label++ '.'::dns.name) ↔ label≠[] ∧ '.'∉label := by
  have hlower : asciiLower (label++ '.'::dns.name)=
      asciiLower label++ '.'::asciiLower dns.name := by
    rw [asciiLower,List.map_append,List.map_cons]
    rfl
  rw [HomeHost,hlower]
  constructor
  · intro h
    rcases h with h|⟨other,hne,hdot,h⟩
    · have hlength := congrArg List.length h
      rw [List.length_append,List.length_cons] at hlength
      omega
    · have hsame : asciiLower label=other := List.append_inj_left' h rfl
      rw [←hsame,asciiLower,ne_eq,List.map_eq_nil_iff] at hne
      rw [←hsame,dot_mem_asciiLower] at hdot
      exact ⟨hne,hdot⟩
  · intro h
    refine Or.inr ⟨asciiLower label,?_,?_,rfl⟩
    · rw [asciiLower,ne_eq,List.map_eq_nil_iff]
      exact h.1
    · rw [dot_mem_asciiLower]
      exact h.2

/-- In front of a configured name, an authority is one of the server exactly
when it is one label behind its user information. -/
theorem homeAuthority_append {token : Text} :
    HomeAuthority dns.name (token++ '.'::dns.name) ↔
      isUserinfo (userinfoOf token)=true ∧ PlainLabel (hostPort token) := by
  have hat : '@'∉ '.'::dns.name := fun h => (dns.plain h).1 rfl
  rw [HomeAuthority,splitAuthority,hostPort_append hat,userinfoOf_append hat]
  by_cases huser : isUserinfo (userinfoOf token)=true
  swap
  · simp only [huser,Bool.false_eq_true,if_false,reduceCtorEq,false_and,exists_const]
  rw [if_pos huser]
  generalize hostPort token=hp
  have hplain : PlainLabel hp ↔ hp.all UrlSyntax.isRegName=true ∧ hp≠[] ∧ '.'∉hp := by
    rw [PlainLabel,List.all_eq_true]
    constructor
    · intro h
      exact ⟨fun c hc => (h.2 c hc).1,h.1,fun hc => (h.2 _ hc).2 rfl⟩
    · intro h
      exact ⟨h.2.1,fun c hc => ⟨h.1 c hc,fun he => h.2.2 (he ▸ hc)⟩⟩
  rw [hplain]
  cases hb : hasBracket hp with
  | true =>
    have hno : ¬hp.all UrlSyntax.isRegName=true := by
      intro hall
      obtain ⟨c,hc,hbracket⟩ := List.any_eq_true.mp hb
      have hnot := not_delimiter_of_isRegName (List.all_eq_true.mp hall c hc)
      simp only [Bool.or_eq_true,beq_iff_eq] at hbracket
      exact hbracket.elim hnot.2.2.1 hnot.2.2.2
    rw [splitHostPort_bracket dns hb]
    simp only [Option.map_none,reduceCtorEq,false_and,exists_const,hno,and_false]
  | false =>
    rw [splitHostPort_append dns hb]
    by_cases hall : hp.all UrlSyntax.isRegName=true
    swap
    · simp only [hall,Bool.false_eq_true,if_false,Option.map_none,reduceCtorEq,false_and,
        exists_const,and_false]
    rw [if_pos hall,←homeHost_append dns]
    constructor
    · intro h
      obtain ⟨userinfo,host,port,heq,hhome⟩ := h
      cases heq
      exact ⟨huser,hall,hhome⟩
    · intro h
      exact ⟨_,_,_,rfl,h.2.2⟩

/-- The path of the DoH endpoint. -/
def dohPath : Text := "/dns-query".toList

/-- An address points home by its authority and its path, if its last part may
stand there. -/
theorem pointsHome_iff {authority hier : Text} (ha : ∀ c∈authority, UrlSyntax.endsAuthority c=false)
    (hh : ∀ c∈hier.head?, UrlSyntax.endsAuthority c=true) :
    PointsHome dns.name ("https://".toList++authority++hier) ↔ HomeAuthority dns.name authority ∧
      hier.takeWhile (!endsPath ·)=dohPath ∧ isHier hier=true := by
  have hparse := parseUrl_append (show ':'∉"https".toList by decide) (by decide) ha hh
  have htext : "https".toList++"://".toList="https://".toList := rfl
  rw [htext] at hparse
  rw [PointsHome,hparse,HomeAuthority]
  constructor
  · intro h
    obtain ⟨u,hu,-,hhome,hpath⟩ := h
    obtain ⟨hhier,hu⟩ := Option.ite_none_right_eq_some.mp hu
    obtain ⟨parts,hparts,rfl⟩ := Option.map_eq_some_iff.mp hu
    exact ⟨⟨_,_,_,hparts,hhome⟩,hpath,hhier⟩
  · intro h
    obtain ⟨⟨userinfo,host,port,hsplit,hhome⟩,hpath,hhier⟩ := h
    exact ⟨_,by rw [if_pos hhier,hsplit]; rfl,rfl,hhome,hpath⟩

/-- What a token is put in front of has no end of a path in it. -/
theorem endsPath_tail : ∀ c∈ '.'::dns.name++dohPath, (!endsPath c)=true := by
  intro c hc
  have hnot : endsPath c=false := by
    rcases List.mem_append.mp hc with hc|hc
    · rcases List.mem_cons.mp hc with rfl|hc
      · rfl
      · have hend := dns.endsAuthority hc
        simp only [UrlSyntax.endsAuthority,Bool.or_eq_false_iff] at hend
        rw [endsPath,hend.1.2,hend.2]
        rfl
    · exact (show ∀ c∈dohPath, endsPath c=false by decide) c hc
  rw [hnot]
  rfl

/-- A path is cut off to the one of the endpoint only by a delimiter of the
token itself. -/
theorem takeWhile_path_iff {rest : Text} :
    (rest++ '.'::dns.name++dohPath).takeWhile (!endsPath ·)=dohPath ↔
      ∃ delimiter tail, rest=dohPath++delimiter::tail ∧ endsPath delimiter=true := by
  constructor
  · intro h
    rw [List.append_assoc,List.takeWhile_append] at h
    split at h
    · have hlength := congrArg List.length h
      rw [List.takeWhile_eq_self_iff.mpr (endsPath_tail dns)] at hlength
      simp only [List.length_append,List.length_cons] at hlength
      omega
    · rename_i hshort
      have hsplit : rest.takeWhile (!endsPath ·)++rest.dropWhile (!endsPath ·)=rest :=
        List.takeWhile_append_dropWhile
      cases hd : rest.dropWhile (!endsPath ·) with
      | nil =>
        rw [hd,List.append_nil] at hsplit
        exact absurd (congrArg List.length hsplit) hshort
      | cons delimiter tail =>
        have hdelimiter : endsPath delimiter=true := by
          have hhead := List.head?_dropWhile_not (!endsPath ·) rest
          rw [hd,List.head?_cons] at hhead
          simpa using hhead
        rw [h,hd] at hsplit
        exact ⟨delimiter,tail,hsplit.symm,hdelimiter⟩
  · intro h
    obtain ⟨delimiter,tail,rfl,hdelimiter⟩ := h
    have hpath : ∀ c∈dohPath, (!endsPath c)=true := by decide
    have hcut := takeWhile_append_stop (!endsPath ·) hpath
      (show ∀ c∈(delimiter::tail++ '.'::dns.name++dohPath).head?, (!endsPath c)=false from
        fun c hc => by rw [←Option.some.inj hc,hdelimiter]; rfl)
    rw [List.append_assoc,List.append_assoc,←List.append_assoc (delimiter::tail)]
    exact hcut.1

/-- What a token is put in front of may stand behind an authority, and completes
nothing in front of it. -/
theorem isHier_append_name (rest : Text) :
    isHier (rest++ '.'::dns.name++dohPath)=isHier rest := by
  have hmem : ∀ c∈ '.'::dns.name++dohPath,
      isHierChar c=true ∧ c≠ '%' ∧ c≠ '#' := by
    intro c hc
    rcases List.mem_append.mp hc with hc|hc
    · have hreg := dns.isRegName_cons hc
      refine ⟨by rw [isHierChar,isUserinfoChar,hreg]; rfl,?_,?_⟩ <;> rintro rfl <;>
        exact absurd hreg (by decide)
    · exact (show ∀ c∈dohPath, isHierChar c=true ∧ c≠ '%' ∧ c≠ '#' by decide) c hc
  rw [List.append_assoc]
  exact isHier_append_right (List.all_eq_true.mpr fun c hc => (hmem c hc).1)
    (fun h => (hmem _ h).2.1 rfl) (fun h => (hmem _ h).2.2 rfl) fun c hc => by cases hc; rfl

/-- The path in front of a query or a fragment is no matter. -/
theorem isHier_dohPath_append (rest : Text) : isHier (dohPath++rest)=isHier rest :=
  isHier_append_left (by decide) (by decide) (by decide)

/-- With a token behind a cut, the address points home by what is in front of
and behind the cut. -/
theorem pointsHome_token {authority rest : Text}
    (ha : ∀ c∈authority, UrlSyntax.endsAuthority c=false)
    (hr : ∀ c∈rest.head?, UrlSyntax.endsAuthority c=true) (hne : rest≠[]) :
    PointsHome dns.name ("https://".toList++(authority++rest++ '.'::dns.name)++dohPath) ↔
      HomeAuthority dns.name authority ∧ ∃ delimiter tail, rest=dohPath++delimiter::tail ∧
        endsPath delimiter=true ∧ isHier (delimiter::tail)=true := by
  have hh : ∀ c∈(rest++ '.'::dns.name++dohPath).head?, UrlSyntax.endsAuthority c=true := by
    obtain ⟨first,others,rfl⟩ := List.exists_cons_of_ne_nil hne
    exact fun c hc => hr c hc
  have htext : "https://".toList++(authority++rest++ '.'::dns.name)++dohPath=
      "https://".toList++authority++(rest++ '.'::dns.name++dohPath) := by
    simp only [List.append_assoc]
  rw [htext,pointsHome_iff dns ha hh,takeWhile_path_iff,isHier_append_name]
  refine and_congr_right fun _ => ?_
  constructor
  · intro h
    obtain ⟨⟨delimiter,tail,rfl,hdelimiter⟩,hhier⟩ := h
    rw [isHier_dohPath_append] at hhier
    exact ⟨delimiter,tail,rfl,hdelimiter,hhier⟩
  · intro h
    obtain ⟨delimiter,tail,rfl,hdelimiter,hhier⟩ := h
    rw [isHier_dohPath_append]
    exact ⟨⟨delimiter,tail,rfl,hdelimiter⟩,hhier⟩

/-- The configured name itself is an authority of the server. -/
theorem homeAuthority_name : HomeAuthority dns.name dns.name := by
  have hplain : ∀ c∈dns.name, c≠ '@' ∧ c≠ ':' ∧ c≠ '[' ∧ c≠ ']' := fun c hc =>
    dns.plain (List.mem_cons_of_mem _ hc)
  have hat : hostPort dns.name=dns.name := by
    rw [hostPort,List.rtakeWhile_eq_self_iff]
    exact fun c hc => bne_iff_ne.mpr (hplain c hc).1
  have huser : userinfoOf dns.name=[] := by
    rw [userinfoOf,hat,Nat.sub_self,List.take_zero]
  have hbracket : hasBracket dns.name=false := by
    refine List.any_eq_false.mpr fun c hc => ?_
    simp only [Bool.or_eq_true,beq_iff_eq,not_or]
    exact (hplain c hc).2.2
  have hcolon : ∀ c∈dns.name, (c != ':')=true := fun c hc => bne_iff_ne.mpr (hplain c hc).2.1
  have hall : dns.name.all UrlSyntax.isRegName=true :=
    List.all_eq_true.mpr fun c hc => dns.isRegName hc
  refine ⟨[],dns.name,none,?_,Or.inl rfl⟩
  rw [splitAuthority,huser,hat,splitHostPort,hbracket,if_neg Bool.false_ne_true,
    List.dropWhile_eq_nil_iff.mpr hcolon,List.takeWhile_eq_self_iff.mpr hcolon,if_pos hall]
  rfl

/-- A token without a cut points home exactly when it is one label. -/
theorem tokenOk_of_uncut {token : Text} (hne : token≠[])
    (h : ∀ c∈token, UrlSyntax.endsAuthority c=false) :
    TokenOk dns.name token ↔
      isUserinfo (userinfoOf token)=true ∧ PlainLabel (hostPort token) := by
  constructor
  · intro hok
    rcases hok with hnil|⟨-,hlabel⟩|⟨authority,delimiter,rest,rfl,-⟩
    · exact absurd hnil hne
    · exact hlabel
    · have hslash := h '/' (List.mem_append_left _ (List.mem_append_right _ (by decide)))
      cases hslash
  · exact fun hlabel => Or.inr (Or.inl ⟨h,hlabel⟩)

/-- A token with a cut points home exactly when it spells an authority of the
server in front of the cut and the path behind it. -/
theorem tokenOk_of_cut {authority rest : Text}
    (ha : ∀ c∈authority, UrlSyntax.endsAuthority c=false)
    (hr : ∀ c∈rest.head?, UrlSyntax.endsAuthority c=true) (hne : rest≠[]) :
    TokenOk dns.name (authority++rest) ↔ HomeAuthority dns.name authority ∧
      ∃ delimiter tail, rest=dohPath++delimiter::tail ∧ endsPath delimiter=true ∧
        isHier (delimiter::tail)=true := by
  have hcut : ∀ front back : Text, (∀ c∈front, UrlSyntax.endsAuthority c=false) →
      (∀ c∈back.head?, UrlSyntax.endsAuthority c=true) →
      (front++back).takeWhile (!UrlSyntax.endsAuthority ·)=front ∧
      (front++back).dropWhile (!UrlSyntax.endsAuthority ·)=back := fun front back hf hb =>
    takeWhile_append_stop _ (fun c hc => by rw [hf c hc]; rfl) (fun c hc => by rw [hb c hc]; rfl)
  have hhead : ∃ first others, rest=first::others := List.exists_cons_of_ne_nil hne
  obtain ⟨first,others,hrest⟩ := hhead
  have hfirst : UrlSyntax.endsAuthority first=true := hr first (by rw [hrest]; rfl)
  constructor
  · intro hok
    rcases hok with hnil|⟨hnone,-⟩|⟨other,delimiter,tail,hsplit,hother,hdelimiter,hhier,hhome⟩
    · exact absurd (List.append_eq_nil_iff.mp hnil).2 hne
    · have hno := hnone first (List.mem_append_right _ (by rw [hrest]; exact List.mem_cons_self))
      rw [hfirst] at hno
      cases hno
    · rw [List.append_assoc] at hsplit
      have hleft := hcut authority rest ha hr
      have hright := hcut other (dohPath++delimiter::tail) hother (by
        intro c hc
        rw [←Option.some.inj hc]
        rfl)
      rw [hsplit] at hleft
      have hauthority : other=authority := hright.1.symm.trans hleft.1
      have htail : dohPath++delimiter::tail=rest := hright.2.symm.trans hleft.2
      rw [hauthority] at hhome
      exact ⟨hhome,delimiter,tail,htail.symm,hdelimiter,hhier⟩
  · intro h
    obtain ⟨hhome,delimiter,tail,rfl,hdelimiter,hhier⟩ := h
    refine Or.inr (Or.inr ⟨authority,delimiter,tail,?_,ha,hdelimiter,hhier,hhome⟩)
    exact (List.append_assoc _ _ _).symm

/-- The address points home exactly for the tokens that are described. -/
theorem pointsHome_iff_tokenOk (token : Text) :
    PointsHome dns.name ("https://".toList++
        (if token=[] then dns.name else token++ '.'::dns.name)++dohPath) ↔
      TokenOk dns.name token := by
  by_cases hnil : token=[]
  · rw [if_pos hnil,pointsHome_iff dns (fun c => dns.endsAuthority) (by decide)]
    exact ⟨fun _ => Or.inl hnil,fun _ => ⟨homeAuthority_name dns,by decide,by decide⟩⟩
  · rw [if_neg hnil]
    have hsplit : token.takeWhile (!UrlSyntax.endsAuthority ·)++
        token.dropWhile (!UrlSyntax.endsAuthority ·)=token := List.takeWhile_append_dropWhile
    have ha : ∀ c∈token.takeWhile (!UrlSyntax.endsAuthority ·),
        UrlSyntax.endsAuthority c=false := by
      intro c hc
      have hp := List.mem_takeWhile_imp hc
      simpa using hp
    have hr : ∀ c∈(token.dropWhile (!UrlSyntax.endsAuthority ·)).head?,
        UrlSyntax.endsAuthority c=true := by
      intro c hc
      have hhead := List.head?_dropWhile_not (!UrlSyntax.endsAuthority ·) token
      rw [Option.mem_def.mp hc] at hhead
      simpa using hhead
    by_cases hrest : token.dropWhile (!UrlSyntax.endsAuthority ·)=[]
    · rw [hrest,List.append_nil] at hsplit
      rw [hsplit] at ha
      have hall : ∀ c∈token++ '.'::dns.name, UrlSyntax.endsAuthority c=false := by
        intro c hc
        rcases List.mem_append.mp hc with hc|hc
        · exact ha c hc
        rcases List.mem_cons.mp hc with rfl|hc
        · rfl
        · exact dns.endsAuthority hc
      rw [pointsHome_iff dns hall (by decide),homeAuthority_append dns,tokenOk_of_uncut dns hnil ha]
      exact and_iff_left (by decide)
    · rw [←hsplit,pointsHome_token dns ha hr hrest,tokenOk_of_cut dns ha hr hrest]

/-- The server address of a profile for the configured name. -/
def serverAddress (token : Text) : Text :=
  "https://".toList++(if token=[] then dns.name else token++ '.'::dns.name)++dohPath

/-- A profile is refused exactly for a code point that a property list can not
contain. -/
theorem texts_control_iff (org identifier : Text) (token : Option Text) :
    (profileDict (mobileconfigSpec dns.name org identifier token)).texts.any
        (fun text => text.any isControl)=true ↔
      ∃ c∈org++identifier++token.getD [], isControl c=true := by
  have hname : dns.name.any isControl=false := by
    refine List.any_eq_false.mpr fun c hc => ?_
    rw [dns.isControl hc]
    exact Bool.false_ne_true
  have hhost : (profileHost (mobileconfigSpec dns.name org identifier token)).any isControl=
      (token.getD []).any isControl := by
    rw [profileHost,mobileconfigSpec]
    dsimp only
    split
    · rename_i hnil
      rw [hname,hnil]
      rfl
    · rw [List.any_append,List.any_cons,hname,show isControl '.'=false by decide]
      simp only [Bool.or_false]
  have htexts : (profileDict (mobileconfigSpec dns.name org identifier token)).texts=
      [org++" Protection".toList,"Configures DNS-over-HTTPS to ".toList++dns.name,identifier,org,
        "HTTPS".toList,"https://".toList++
          profileHost (mobileconfigSpec dns.name org identifier token)++"/dns-query".toList] := rfl
  have hprotection : " Protection".toList.any isControl=false := by decide
  have hconfigures : "Configures DNS-over-HTTPS to ".toList.any isControl=false := by decide
  have hhttps : "HTTPS".toList.any isControl=false := by decide
  have hscheme : "https://".toList.any isControl=false := by decide
  have hpath : "/dns-query".toList.any isControl=false := by decide
  rw [htexts]
  simp only [List.any_cons,List.any_nil,List.any_append,hprotection,hconfigures,hhttps,hscheme,
    hpath,hname,hhost,Bool.or_false,Bool.false_or,Bool.or_eq_true,List.any_eq_true,
    List.mem_append,or_and_right,exists_or]
  have htwice : ∀ a b c : Prop, a ∨ b ∨ a ∨ c ↔ (a ∨ b) ∨ c := by tauto
  exact htwice _ _ _

/-- A profile rewrites the token of an address only. -/
theorem plistText_address {scheme name path token : Text} (hs : '\r'∉scheme) (hn : '\r'∉name)
    (hp : '\r'∉path) :
    plistText (scheme++(if token=[] then name else token++ '.'::name)++path)=
      scheme++(if plistText token=[] then name else plistText token++ '.'::name)++path := by
  have hnp : '\r'∉name++path := fun h => (List.mem_append.mp h).elim hn hp
  rw [List.append_assoc,plistText_of_append hs,List.append_assoc]
  by_cases hnil : token=[]
  · rw [if_pos hnil,if_pos (plistText_eq_nil.mpr hnil),plistText_eq_self hnp]
  · have hdot : '\r'∉ '.'::(name++path) := by
      rw [List.mem_cons,not_or]
      exact ⟨by decide,hnp⟩
    rw [if_neg hnil,if_neg (fun h => hnil (plistText_eq_nil.mp h)),List.append_assoc,
      List.append_assoc,List.cons_append,plistText_append (fun h => by cases h),
      plistText_eq_self hdot]

/-- The server address as a reader of the profile gets it. -/
theorem plistText_serverAddress (token : Text) :
    plistText (serverAddress dns token)=serverAddress dns (plistText token) :=
  plistText_address (by decide) (dns.not_mem (by decide)) (by decide)

end Hosts

/-- A configured host name. -/
def scamlensDns : PlainHost where
  name := "dns.scamlens.example.com".toList
  chars := by decide
  nonempty := by decide

end ScamLens.ProfileUrls
