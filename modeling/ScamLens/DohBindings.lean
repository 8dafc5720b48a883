import ScamLens.BacktrackingRegex
import ScamLens.KeyedTables
import ScamLens.ProfileUrls
import ScamLens.SeparatorChains

/-!
# From a DoH token to its user

Three issuers make tokens, the profile builder turns one into the first label
of a host name, the reverse proxy turns the label back into a path, and the
DNS server looks the token up. The four agree on the tokens of registered
users: the others are longer than a label may be.
-/

namespace ScamLens.DohBindings

open BacktrackingRegex DomainEntries KeyedTables ProfileUrls PythonText UrlSyntax

section Issuers

/-- A digit of base 16. -/
def hexDigit (n : ℕ) : Char := "0123456789abcdef".toList.getD n '0'

/-- A byte in hexadecimal. -/
def hexByte (b : UInt8) : Text := [hexDigit (b.toNat/16),hexDigit (b.toNat%16)]

/-- `bytes.hex()` -/
def hexText (bytes : List UInt8) : Text := bytes.flatMap hexByte

/-- A digit of base 64 in the URL-safe alphabet. -/
def base64Digit (n : ℕ) : Char :=
  "ABCDEFGHIJKLMNOPQRSTUVWXYZabcdefghijklmnopqrstuvwxyz0123456789-_".toList.getD n 'A'

/-- `base64.urlsafe_b64encode`, three bytes at a time. -/
def urlsafeBase64 : List UInt8 → Text
  | a::b::c::rest =>
    [base64Digit (a.toNat/4),base64Digit (a.toNat%4*16+b.toNat/16),
      base64Digit (b.toNat%16*4+c.toNat/64),base64Digit (c.toNat%64)]++urlsafeBase64 rest
  | [a,b] => [base64Digit (a.toNat/4),base64Digit (a.toNat%4*16+b.toNat/16),
      base64Digit (b.toNat%16*4),'=']
  | [a] => [base64Digit (a.toNat/4),base64Digit (a.toNat%4*16),'=','=']
  | [] => []

/-- `gen_random_uuid()::text` for the random bits it draws. -/
def uuidText (random : List UInt8) : Text :=
  let bytes := (random.modify 6 fun b => b &&& 0x0F ||| 0x40).modify 8 fun b =>
    b &&& 0x3F ||| 0x80
  join ['-'] [hexText (bytes.take 4),hexText ((bytes.drop 4).take 2),
    hexText ((bytes.drop 6).take 2),hexText ((bytes.drop 8).take 2),hexText (bytes.drop 10)]

/-- The ways in which a token gets into `users`, with the random bytes drawn. -/
inductive Issuance where
  /-- `new_doh_token` of the API, on registration. -/
  | registration (random : Fin 24 → UInt8)
  /-- `new_doh_token` of `create_admin`. -/
  | createAdmin (random : Fin 48 → UInt8)
  /-- The INSERT of migration 005. -/
  | migration (first second : Fin 16 → UInt8)

/-- The token of an issuance. -/
def Issuance.token : Issuance → Text
  | .registration random => hexText (List.ofFn random)
  | .createAdmin random => rstripChar '=' (urlsafeBase64 (List.ofFn random))
  | .migration first second =>
    replace ['-'] [] (uuidText (List.ofFn first))++replace ['-'] [] (uuidText (List.ofFn second))

/-- What holds of all entries of a list holds of the one at any place. -/
theorem getD_of_all {p : Char → Bool} {l : Text} {d : Char} (hl : l.all p=true) (hd : p d=true)
    (n : ℕ) : p (l.getD n d)=true := by
  rw [List.getD_eq_getElem?_getD]
  rcases hn : l[n]? with _|c
  · exact hd
  · exact List.all_eq_true.mp hl c (List.mem_of_getElem? hn)

/-- `[a-f0-9]` -/
def isHex (c : Char) : Bool := ('a' ≤ c && c ≤ 'f') || ('0' ≤ c && c ≤ '9')

/-- `[A-Za-z0-9_\-]` -/
def isTokenChar (c : Char) : Bool :=
  ('A' ≤ c && c ≤ 'Z') || ('a' ≤ c && c ≤ 'z') || ('0' ≤ c && c ≤ '9') || c == '_' || c == '-'

/-- Hexadecimal texts have two digits a byte. -/
theorem length_hexText (bytes : List UInt8) : (hexText bytes).length=2*bytes.length := by
  induction bytes with
  | nil => rfl
  | cons b bytes ih =>
    have hstep : hexText (b::bytes)=hexByte b++hexText bytes := rfl
    have hbyte : (hexByte b).length=2 := rfl
    rw [hstep,List.length_append,hbyte,ih,List.length_cons]
    omega

/-- Hexadecimal texts have no other code points. -/
theorem isHex_of_mem {bytes : List UInt8} {c : Char} (h : c∈hexText bytes) : isHex c=true := by
  have hdigit : ∀ n, isHex (hexDigit n)=true := getD_of_all (by decide) (by decide)
  obtain ⟨b,-,hc⟩ := List.mem_flatMap.mp h
  rcases List.mem_cons.mp hc with rfl|hc
  · exact hdigit _
  · rw [List.mem_singleton.mp hc]
    exact hdigit _

/-- Hexadecimal digits are canonical. -/
theorem isHostChar_of_isHex {c : Char} (h : isHex c=true) : isHostChar c=true := by
  have hdigit : (isHex c=true) ↔ ('a' ≤ c ∧ c ≤ 'f') ∨ ('0' ≤ c ∧ c ≤ '9') := by
    simp only [isHex,Bool.or_eq_true,Bool.and_eq_true,decide_eq_true_eq]
  rw [isHostChar,Bool.or_eq_true,Bool.or_eq_true]
  rcases hdigit.mp h with hletter|hnumber
  · have hlow : (decide (97 ≤ c.toNat) && decide (c.toNat≤122))=true := by
      have h97 : 97 ≤ c.toNat := hletter.1
      have h102 : c.toNat≤102 := hletter.2
      simp only [Bool.and_eq_true,decide_eq_true_eq]
      omega
    exact Or.inl (Or.inl hlow)
  · have hlow : (decide (48 ≤ c.toNat) && decide (c.toNat≤57))=true := by
      have h48 : 48 ≤ c.toNat := hnumber.1
      have h57 : c.toNat≤57 := hnumber.2
      simp only [Bool.and_eq_true,decide_eq_true_eq]
      omega
    exact Or.inl (Or.inr hlow)

/-- Hexadecimal digits may stand in a path. -/
theorem isTokenChar_of_isHex {c : Char} (h : isHex c=true) : isTokenChar c=true := by
  simp only [isHex,isTokenChar,Bool.or_eq_true,Bool.and_eq_true,decide_eq_true_eq] at h ⊢
  rcases h with hletter|hnumber
  · have hz : ('f' : Char) ≤ 'z' := by decide
    exact Or.inl (Or.inl (Or.inl (Or.inr ⟨hletter.1,Char.le_trans hletter.2 hz⟩)))
  · exact Or.inl (Or.inl (Or.inr hnumber))

/-- What may stand in a path may stand in a host name. -/
theorem isRegName_of_isTokenChar {c : Char} (h : isTokenChar c=true) : isRegName c=true := by
  simp only [isTokenChar,Bool.or_eq_true,Bool.and_eq_true,decide_eq_true_eq,beq_iff_eq] at h
  rcases h with (((hupper|hlower)|hdigit)|rfl)|rfl
  · have hu : c.isUpper=true := decide_eq_true hupper
    exact isRegName_of_isAlphanum (.inl hu)
  · have hl : c.isLower=true :=
      Bool.and_eq_true_iff.mpr ⟨decide_eq_true hlower.1,decide_eq_true hlower.2⟩
    exact isRegName_of_isAlphanum (.inr (.inl hl))
  · have hd : c.isDigit=true :=
      Bool.and_eq_true_iff.mpr ⟨decide_eq_true hdigit.1,decide_eq_true hdigit.2⟩
    exact isRegName_of_isAlphanum (.inr (.inr hd))
  · rfl
  · rfl

/-- Whole groups of three bytes are four digits each, without padding. -/
theorem urlsafeBase64_groups (k : ℕ) {bytes : List UInt8} (h : bytes.length=3*k) :
    (urlsafeBase64 bytes).length=4*k ∧ ∀ c∈urlsafeBase64 bytes, isTokenChar c=true := by
  have hdigit : ∀ n, isTokenChar (base64Digit n)=true := getD_of_all (by decide) (by decide)
  induction k generalizing bytes with
  | zero =>
    rw [List.eq_nil_of_length_eq_zero h]
    exact ⟨rfl,fun c hc => absurd hc List.not_mem_nil⟩
  | succ k ih =>
    match bytes,h with
    | a::b::c::rest,h =>
      have hrest : rest.length=3*k := by
        simp only [List.length_cons] at h
        omega
      obtain ⟨hlength,hchars⟩ := ih hrest
      rw [urlsafeBase64]
      constructor
      · rw [List.length_append,hlength]
        simp only [List.length_cons,List.length_nil]
        omega
      · intro d hd
        rcases List.mem_append.mp hd with hd|hd
        · simp only [List.mem_cons,List.not_mem_nil,or_false] at hd
          rcases hd with rfl|rfl|rfl|rfl <;> exact hdigit _
        · exact hchars d hd

/-- Removing a character keeps the other ones. -/
theorem replace_char (c : Char) (s : Text) : replace [c] [] s=s.filter (· != c) := by
  rw [replace]
  induction s with
  | nil => rfl
  | cons d s ih =>
    have hfront : [c].isPrefixOf (d::s)=(c == d) := by
      rw [List.isPrefixOf,List.isPrefixOf,Bool.and_true]
    rw [replaceFrom,hfront,List.filter_cons]
    by_cases hd : c=d
    · rw [if_pos (beq_iff_eq.mpr hd),if_neg (by simp [hd])]
      exact (congrArg _ ih)
    · rw [if_neg (by simp [hd]),if_pos (bne_iff_ne.mpr (Ne.symm hd)),ih]

/-- Without hyphens a UUID is 32 hexadecimal digits. -/
theorem replace_uuidText {random : List UInt8} (h : random.length=16) :
    (replace ['-'] [] (uuidText random)).length=32 ∧
      ∀ c∈replace ['-'] [] (uuidText random), isHex c=true := by
  have hkeep : ∀ bytes, (hexText bytes).filter (· != '-')=hexText bytes := by
    intro bytes
    refine List.filter_eq_self.mpr fun c hc => bne_iff_ne.mpr fun he => ?_
    have hhex := isHex_of_mem hc
    rw [he] at hhex
    exact absurd hhex (by decide)
  rw [replace_char]
  have hbytes : ∃ bytes : List UInt8, bytes.length=16 ∧ uuidText random=
      join ['-'] [hexText (bytes.take 4),hexText ((bytes.drop 4).take 2),
        hexText ((bytes.drop 6).take 2),hexText ((bytes.drop 8).take 2),
        hexText (bytes.drop 10)] :=
    ⟨_,by simp only [List.length_modify,h],rfl⟩
  obtain ⟨bytes,hlength,htext⟩ := hbytes
  have hfilter : (uuidText random).filter (· != '-')=
      hexText (bytes.take 4)++hexText ((bytes.drop 4).take 2)++
        hexText ((bytes.drop 6).take 2)++hexText ((bytes.drop 8).take 2)++
        hexText (bytes.drop 10) := by
    rw [htext]
    simp [join,List.intercalate,hkeep]
  rw [hfilter]
  constructor
  · simp only [List.length_append,length_hexText,List.length_take,List.length_drop,hlength]
    omega
  · intro c hc
    simp only [List.mem_append] at hc
    rcases hc with (((hc|hc)|hc)|hc)|hc <;> exact isHex_of_mem hc

/-- Tokens are letters, digits, hyphens and underscores. -/
theorem Issuance.isTokenChar {issuance : Issuance} {c : Char} (h : c∈issuance.token) :
    isTokenChar c=true := by
  cases issuance with
  | registration random => exact isTokenChar_of_isHex (isHex_of_mem h)
  | createAdmin random =>
    have hsubset := (List.rdropWhile_prefix (· == '=') _).subset h
    exact (urlsafeBase64_groups 16 (List.length_ofFn)).2 c hsubset
  | migration first second =>
    rcases List.mem_append.mp h with h|h
    · exact isTokenChar_of_isHex ((replace_uuidText List.length_ofFn).2 c h)
    · exact isTokenChar_of_isHex ((replace_uuidText List.length_ofFn).2 c h)

/-- The tokens of registrations have 48 digits, the others are longer. -/
theorem Issuance.length_token (issuance : Issuance) :
    issuance.token.length=match issuance with
      | .registration _ => 48
      | .createAdmin _ | .migration _ _ => 64 := by
  cases issuance with
  | registration random =>
    rw [token,length_hexText,List.length_ofFn]
  | createAdmin random =>
    have hgroups := urlsafeBase64_groups 16 (List.length_ofFn : (List.ofFn random).length=48)
    have hpadding : rstripChar '=' (urlsafeBase64 (List.ofFn random))=
        urlsafeBase64 (List.ofFn random) := by
      refine rstripChar_eq_self fun hne he => ?_
      have hlast := hgroups.2 _ (List.getLast_mem hne)
      rw [he] at hlast
      exact absurd hlast (by decide)
    rw [token,hpadding,hgroups.1]
  | migration first second =>
    rw [token,List.length_append,(replace_uuidText List.length_ofFn).1,
      (replace_uuidText List.length_ofFn).1]

end Issuers

section Proxy

/-- The class of a code point of the configured name in the pattern, where a
dot stands for anything. -/
def nameClass (c : Char) : Char → Bool := if c = '.' then fun d => d != '\n' else (· == c)

/-- `^(?<doh_token>[a-f0-9]{48})\.${DNS_HOSTNAME}` -/
def hostPattern (dns : Text) : Regex Char :=
  .classes (List.replicate 48 isHex++(· == '.')::dns.map nameClass)

/-- `$doh_upstream`: the path for a host, the capture being its first 48 code
points. -/
def dohUpstream (dns host : Text) : Text :=
  if ((hostPattern dns).ends host).any fun rest => rest.isEmpty || rest == ['\n'] then
    "/dns-query/".toList++host.take 48
  else "/dns-query".toList

/-- `server_name ${DNS_HOSTNAME} *.${DNS_HOSTNAME}` -/
def serverNamed (dns host : Text) : Bool := host == dns || ('.'::dns).isSuffixOf host

/-- The path that the proxy asks the DNS server for, none for its own 404 and
for a host that another server block answers. Hosts are compared in lower case,
of ASCII letters alone. -/
def proxyPath (dns host path : Text) : Option Text :=
  if serverNamed dns (asciiLower host)=false then none
  else if path="/dns-query".toList then some (dohUpstream dns (asciiLower host))
  else if "/dns-query/".toList.isPrefixOf path ∧ path.drop 11≠[] ∧ (path.drop 11).all isTokenChar
  then some path
  else none

/-- The handler of a path and its token, none for a 404; the proxy passes no
percent sign. -/
def dohRoute (path : Text) : Option (Option Text) :=
  if path="/dns-query".toList then some none
  else if "/dns-query/".toList.isPrefixOf path ∧ path.drop 11≠[] ∧ '/'∉path.drop 11 then
    some (some (path.drop 11))
  else none

/-- The user that `_process` attributes a query to. -/
def userOf (dohTokens : Table Text ℕ) (token : Option Text) : Option ℕ :=
  token.bind fun t => if t=[] then none else dohTokens.lookup t

end Proxy

/-- A legal label: at most 63 letters, digits and hyphens. -/
def LegalLabel (label : Text) : Prop := label≠[] ∧ label.length≤63 ∧ ∀ c∈label, isHostChar c=true

/-- A configured host name with legal labels. -/
structure ServerName extends HostName where
  /-- No label is longer than the domain name system allows. -/
  labelLength : ∀ label∈name.splitOn '.', label.length≤63

/-- An address has a host with legal labels, and a request to it reaches the
handler with the token and is attributed to the user. -/
def RoundTrips (dns url token : Text) (dohTokens : Table Text ℕ) (userId : ℕ) : Prop :=
  ∃ u, parseUrl url=some u ∧ (∀ label∈u.host.splitOn '.', LegalLabel label) ∧
    ∃ path, proxyPath dns u.host u.path=some path ∧ dohRoute path=some (some token) ∧
      userOf dohTokens (some token)=some userId

section Bindings

variable (dns : ServerName)

/-- The configured name as the profile builder takes it. -/
def ServerName.plainHost : PlainHost where
  name := dns.name
  chars := fun c hc => (dns.chars c hc).imp id fun h => Or.inl h
  nonempty := fun h => by
    have hdotted := dns.dotted
    rw [h] at hdotted
    exact List.not_mem_nil hdotted

/-- A token has no code point but letters, digits, hyphens and underscores. -/
theorem Issuance.not_mem (issuance : Issuance) {c : Char} (h : DohBindings.isTokenChar c=false) :
    c∉issuance.token := by
  intro hc
  have htoken := issuance.isTokenChar hc
  rw [h] at htoken
  cases htoken

/-- A token is not empty. -/
theorem Issuance.token_ne_nil (issuance : Issuance) : issuance.token≠[] := by
  intro h
  have hlength := issuance.length_token
  rw [h] at hlength
  cases issuance <;> cases hlength

/-- The profile of a token has its server address as it was spliced. -/
theorem serverUrl_eq {issuance : Issuance} {org identifier : Text} {profile : Profile} {url : Text}
    (hprofile : buildMobileconfig dns.name org identifier (some issuance.token)=some profile)
    (hurl : profile.dnsSettings.serverUrl=some url) :
    url=serverAddress dns.plainHost issuance.token := by
  rw [buildMobileconfig,buildProfile,dumps] at hprofile
  split at hprofile
  · cases hprofile
  · have haddress : some (plistText (serverAddress dns.plainHost issuance.token))=some url := by
      rw [←hurl,←Option.some.inj hprofile]
      rfl
    rw [plistText_serverAddress,plistText_eq_self (issuance.not_mem (by decide))] at haddress
    exact (Option.some.inj haddress).symm

/-- The server address of a token by its components. -/
theorem serverAddress_token (issuance : Issuance) :
    serverAddress dns.plainHost issuance.token=
      "https".toList++"://".toList++(issuance.token++ '.'::dns.name)++"/dns-query".toList := by
  have hscheme : "https://".toList="https".toList++"://".toList := by decide
  have hname : dns.plainHost.name=dns.name := rfl
  have hne := issuance.token_ne_nil
  unfold serverAddress
  rw [if_neg hne,hscheme]
  unfold dohPath
  rw [hname]

/-- The server address of a token has the token as the first label of its host. -/
theorem parseUrl_serverAddress (issuance : Issuance) :
    parseUrl (serverAddress dns.plainHost issuance.token)=some {
      scheme := "https".toList
      userinfo := []
      host := issuance.token++ '.'::dns.name
      port := none
      path := "/dns-query".toList
      rest := [] } := by
  have hmem : ∀ c, DohBindings.isTokenChar c=false → c∉ '.'::dns.name →
      c∉issuance.token++ '.'::dns.name := by
    intro c hc hname h
    exact (List.mem_append.mp h).elim (issuance.not_mem hc) hname
  have hplain : ∀ c∈issuance.token++ '.'::dns.name, UrlSyntax.endsAuthority c=false := by
    intro c hc
    rcases List.mem_append.mp hc with hc|hc
    · rw [Bool.eq_false_iff]
      intro he
      simp only [UrlSyntax.endsAuthority,Bool.or_eq_true,beq_iff_eq] at he
      rcases he with (rfl|rfl)|rfl <;> exact issuance.not_mem (by decide) hc
    rcases List.mem_cons.mp hc with rfl|hc
    · rfl
    · exact dns.plainHost.endsAuthority hc
  have hat : '@'∉issuance.token++ '.'::dns.name :=
    hmem _ (by decide) fun h => (dns.plainHost.plain h).1 rfl
  have hhost : hostPort (issuance.token++ '.'::dns.name)=issuance.token++ '.'::dns.name := by
    have happend : hostPort ([]++(issuance.token++ '.'::dns.name))=_ := hostPort_append hat
    exact happend
  have huser : userinfoOf (issuance.token++ '.'::dns.name)=[] := by
    rw [userinfoOf,hhost,Nat.sub_self,List.take_zero]
  have hbracket : hasBracket issuance.token=false := by
    refine List.any_eq_false.mpr fun c hc => ?_
    simp only [Bool.or_eq_true,beq_iff_eq,not_or]
    exact ⟨fun he => issuance.not_mem (by decide) (he ▸ hc),
      fun he => issuance.not_mem (by decide) (he ▸ hc)⟩
  have hchars : issuance.token.all isRegName=true :=
    List.all_eq_true.mpr fun c hc => isRegName_of_isTokenChar (issuance.isTokenChar hc)
  have hsplit : splitHostPort (issuance.token++ '.'::dns.name)=
      some (issuance.token++ '.'::dns.name,none) := by
    have happend := splitHostPort_append dns.plainHost hbracket
    rwa [if_pos hchars] at happend
  have hpath : ∀ c∈"/dns-query".toList.head?, UrlSyntax.endsAuthority c=true := by decide
  have hhier : isHier "/dns-query".toList=true := by decide
  rw [serverAddress_token,parseUrl_append (by decide) (by decide) hplain hpath,if_pos hhier,
    splitAuthority,huser,hhost,hsplit]
  rfl

/-- A text of one class is read by so many symbols of it. -/
theorem forall₂_replicate {p : Char → Bool} {s : Text} (h : ∀ c∈s, p c=true) :
    List.Forall₂ (fun q c => q c=true) (List.replicate s.length p) s := by
  induction s with
  | nil => exact List.Forall₂.nil
  | cons c s ih =>
    rw [List.length_cons,List.replicate_succ]
    exact List.Forall₂.cons (h c List.mem_cons_self)
      (ih fun d hd => h d (List.mem_cons_of_mem _ hd))

/-- A configured name matches its own pattern. -/
theorem forall₂_nameClass (name : Text) :
    List.Forall₂ (fun q c => q c=true) (name.map nameClass) name := by
  rw [List.forall₂_map_left_iff,List.forall₂_same]
  intro c _
  rw [nameClass]
  split
  · rename_i hdot
    rw [hdot]
    rfl
  · exact beq_self_eq_true c

/-- The host map finds a token of 48 hexadecimal digits. -/
theorem dohUpstream_hex {token : Text} (hlength : token.length=48)
    (hhex : ∀ c∈token, isHex c=true) :
    dohUpstream dns.name (token++ '.'::dns.name)="/dns-query/".toList++token := by
  have hclasses : List.Forall₂ (fun q c => q c=true)
      (List.replicate 48 isHex++(· == '.')::dns.name.map nameClass) (token++ '.'::dns.name) := by
    have htoken := forall₂_replicate hhex
    rw [hlength] at htoken
    exact List.rel_append htoken (List.Forall₂.cons rfl (forall₂_nameClass dns.name))
  have hends := Regex.ends_classes hclasses []
  rw [List.append_nil] at hends
  have hany : (((hostPattern dns.name).ends (token++ '.'::dns.name)).any fun rest =>
      rest.isEmpty || rest == ['\n'])=true := by
    rw [hostPattern,hends]
    rfl
  have htake : (token++ '.'::dns.name).take 48=token := by
    rw [←hlength,List.take_left]
  rw [dohUpstream,if_pos hany,htake]

/-- The hosts below a name are answered under it. -/
theorem serverNamed_append (name token : Text) : serverNamed name (token++ '.'::name)=true := by
  rw [serverNamed,Bool.or_eq_true]
  exact Or.inr (List.isSuffixOf_iff_suffix.mpr (List.suffix_append token _))

/-- Requests for the path of an address go where the host map says. -/
theorem proxyPath_dnsQuery {name host : Text} (h : serverNamed name (asciiLower host)=true) :
    proxyPath name host "/dns-query".toList=some (dohUpstream name (asciiLower host)) := by
  rw [proxyPath,h]
  rfl

/-- A host of a token of hexadecimal digits has no upper-case letters. -/
theorem asciiLower_host {token : Text} (hhex : ∀ c∈token, isHex c=true) :
    asciiLower (token++ '.'::dns.name)=token++ '.'::dns.name := by
  rw [asciiLower]
  refine (List.map_congr_left fun c hc => ?_).trans (List.map_id _)
  refine canonical_toLower ?_
  rcases List.mem_append.mp hc with hc|hc
  · exact Or.inr (isHostChar_of_isHex (hhex c hc))
  rcases List.mem_cons.mp hc with rfl|hc
  · exact Or.inl rfl
  · exact dns.chars c hc

/-- The path of the host map is routed with the token. -/
theorem dohRoute_token {token : Text} (hne : token≠[]) (hslash : '/'∉token) :
    dohRoute ("/dns-query/".toList++token)=some (some token) := by
  have hlonger : "/dns-query/".toList++token≠"/dns-query".toList := by
    intro h
    have hlength := congrArg List.length h
    have hfront : "/dns-query/".toList.length=11 := by decide
    have hpath : "/dns-query".toList.length=10 := by decide
    rw [List.length_append,hfront,hpath] at hlength
    omega
  have hdrop : ("/dns-query/".toList++token).drop 11=token := List.drop_left' (by decide)
  have hfront : "/dns-query/".toList.isPrefixOf ("/dns-query/".toList++token)=true :=
    List.isPrefixOf_iff_prefix.mpr (List.prefix_append _ _)
  rw [dohRoute,if_neg hlonger,hdrop,if_pos ⟨hfront,hne,hslash⟩]

/-- The labels of the host of a token. -/
theorem labels_host (issuance : Issuance) :
    (issuance.token++ '.'::dns.name).splitOn '.'=issuance.token::dns.name.splitOn '.' :=
  List.splitOn_append_cons_self_of_not_mem (issuance.not_mem (by decide)) _

/-- The labels of a configured name are legal. -/
theorem ServerName.legalLabel {label : Text} (h : label∈dns.name.splitOn '.') :
    LegalLabel label := by
  refine ⟨fun he => dns.labels (he ▸ h),dns.labelLength label h,fun c hc => ?_⟩
  have hname : c∈dns.name := SeparatorChains.subset_of_mem_splitOn h hc
  refine (dns.chars c hname).resolve_left fun hdot => ?_
  exact SeparatorChains.not_mem_of_mem_splitOn h (hdot ▸ hc)

/-- Only the token of a registration is short enough for a label. -/
theorem registration_of_legalLabels {issuance : Issuance} {u : Url}
    (hu : parseUrl (serverAddress dns.plainHost issuance.token)=some u)
    (hlegal : ∀ label∈u.host.splitOn '.', LegalLabel label) :
    ∃ random, issuance=.registration random := by
  rw [parseUrl_serverAddress] at hu
  rw [←Option.some.inj hu] at hlegal
  have hlabel : issuance.token∈(issuance.token++ '.'::dns.name).splitOn '.' := by
    rw [labels_host]
    exact List.mem_cons_self
  have hshort := (hlegal _ hlabel).2.1
  have hlength := issuance.length_token
  cases issuance with
  | registration random => exact ⟨random,rfl⟩
  | createAdmin random =>
    dsimp only at hlength
    omega
  | migration first second =>
    dsimp only at hlength
    omega

/-- Address, proxy and server agree on the token of a user exactly when it
comes from a registration. -/
theorem roundTrips_iff_registration (issuance : Issuance) {dohTokens : Table Text ℕ} {userId : ℕ}
    (huser : dohTokens.lookup issuance.token=some userId) {org identifier : Text}
    {profile : Profile} {url : Text}
    (hprofile : buildMobileconfig dns.name org identifier (some issuance.token)=some profile)
    (hurl : profile.dnsSettings.serverUrl=some url) :
    RoundTrips dns.name url issuance.token dohTokens userId ↔
      ∃ random, issuance=.registration random := by
  rw [serverUrl_eq dns hprofile hurl]
  constructor
  · intro h
    obtain ⟨u,hu,hlegal,-⟩ := h
    exact registration_of_legalLabels dns hu hlegal
  · intro h
    obtain ⟨random,rfl⟩ := h
    have hlength : (Issuance.registration random).token.length=48 := Issuance.length_token _
    have hhex : ∀ c∈(Issuance.registration random).token, isHex c=true :=
      fun c hc => isHex_of_mem hc
    have hne := (Issuance.registration random).token_ne_nil
    refine ⟨_,parseUrl_serverAddress dns _,?_,"/dns-query/".toList++_,?_,
      dohRoute_token hne (Issuance.not_mem _ (by decide)),?_⟩
    · intro label hlabel
      rw [labels_host] at hlabel
      rcases List.mem_cons.mp hlabel with rfl|hlabel
      · exact ⟨hne,by omega,fun c hc => isHostChar_of_isHex (hhex c hc)⟩
      · exact dns.legalLabel hlabel
    · have hlower := asciiLower_host dns hhex
      have hnamed := serverNamed_append dns.name (Issuance.registration random).token
      rw [proxyPath_dnsQuery (by rw [hlower]; exact hnamed),hlower,
        dohUpstream_hex dns hlength hhex]
    · rw [userOf,Option.bind_some,if_neg hne]
      exact huser

end Bindings

/-- A configured host name with legal labels. -/
def scamlensServer : ServerName where
  name := "dns.scamlens.example.com".toList
  chars := hostChars_of_all (by decide)
  labels := by decide
  dotted := by decide
  short := by decide
  labelLength := by decide

/-- The profile of a token for this name. -/
def scamlensProfile (issuance : Issuance) : Option Profile :=
  buildMobileconfig scamlensServer.name "ScamLens".toList "com.scamlens.dns".toList
    (some issuance.token)

/-- A registered user's token makes the whole way, as this one does. -/
theorem registered_roundTrips : ∃ profile url,
    scamlensProfile (.registration fun _ => 0xA5)=some profile ∧
    profile.dnsSettings.serverUrl=some url ∧
    (RoundTrips scamlensServer.name url (Issuance.registration fun _ => 0xA5).token
        (Finmap.singleton (Issuance.registration fun _ => 0xA5).token 7) 7 ↔
      ∃ random, Issuance.registration (fun _ => 0xA5)=.registration random) := by
  have hurl : (scamlensProfile (.registration fun _ => 0xA5)).bind (·.dnsSettings.serverUrl)=
      some ("https://".toList++hexText (List.replicate 24 0xA5)++
        ".dns.scamlens.example.com/dns-query".toList) := by decide +kernel
  obtain ⟨profile,hprofile,hserver⟩ := Option.bind_eq_some_iff.mp hurl
  exact ⟨profile,_,hprofile,hserver,roundTrips_iff_registration scamlensServer _
    (Finmap.lookup_singleton_eq) hprofile hserver⟩

/-- The token of an administrator is issued, and is too long for a label. -/
theorem admin_token_is_no_label : ¬∀ (issuance : Issuance) (dohTokens : Table Text ℕ)
    (userId : ℕ) (profile : Profile) (url : Text),
    dohTokens.lookup issuance.token=some userId → scamlensProfile issuance=some profile →
    profile.dnsSettings.serverUrl=some url →
    RoundTrips scamlensServer.name url issuance.token dohTokens userId := by
  intro h
  have hurl : ((scamlensProfile (.createAdmin fun _ => 0xA5)).bind
      (·.dnsSettings.serverUrl)).isSome=true := by decide +kernel
  obtain ⟨url,hurl⟩ := Option.isSome_iff_exists.mp hurl
  obtain ⟨profile,hprofile,hserver⟩ := Option.bind_eq_some_iff.mp hurl
  obtain ⟨u,hu,hlegal,-⟩ := h (.createAdmin fun _ => 0xA5) (Finmap.singleton _ 1) 1 profile url
    Finmap.lookup_singleton_eq hprofile hserver
  rw [serverUrl_eq scamlensServer hprofile hserver] at hu
  obtain ⟨random,hregistration⟩ := registration_of_legalLabels scamlensServer hu hlegal
  cases hregistration

end ScamLens.DohBindings
