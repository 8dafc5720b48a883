import ScamLens.Base64Texts
import ScamLens.ClientAddresses
import ScamLens.DohBindings
import ScamLens.TcpServers

/-!
# Queries over HTTPS

A message comes to the server as the body of a POST, or in base 64 as a
parameter of a GET, with or without its padding. The proxy routes the request
and names the peer. Whoever asks and however, the resolver answers a message
with the same bytes as over UDP and TCP; the address and the user are seen by
the rows of the block log alone.
-/

namespace ScamLens.DohRequests

open BacktrackingRegex Base64Texts ClientAddresses DohBindings LengthFrames PlainMessages
  ProfileUrls PythonText Resolver TcpServers Upstream UpstreamSockets VerdictCache

section Handler

/-- The entry of a code point in `table_a2b_base64`, behind the translation of
the two signs of the URL-safe alphabet. -/
def urlsafeValue (c : Char) : Option ℕ :=
  let n := c.toNat
  if 65≤n ∧ n≤90 then some (n-65)
  else if 97≤n ∧ n≤122 then some (n-71)
  else if 48≤n ∧ n≤57 then some (n+4)
  else if c = '+' ∨ c = '-' then some 62
  else if c = '/' ∨ c = '_' then some 63
  else none

/-- `base64.urlsafe_b64decode` of a string, none when it raises. -/
def urlsafeB64decode (s : Text) : Option Wire :=
  if s.all fun c => c.toNat<128 then a2bBase64 urlsafeValue s else none

/-- `_pad_b64` -/
def padB64 (s : Text) : Text := s++List.replicate (padding s.length) '='

/-- A request as the handlers of the server get it. -/
structure DohRequest where
  /-- Headers and remote address. -/
  http : Request
  /-- Whether the method is POST; the only other one with a route is GET. -/
  post : Bool
  /-- `request.query`, decoded. -/
  query : List (Text×Text)
  /-- `await request.read()` -/
  body : Wire

/-- What a request is answered with. -/
inductive Response where
  /-- An answer message. -/
  | answer (wire : Wire)
  /-- A status and its text. -/
  | refused (status : ℕ) (text : Text)
  /-- The status 500 of an exception. -/
  | failed

/-- The answer message of a response. -/
def Response.wire : Response → Option Wire
  | .answer wire => some wire
  | .refused _ _ => none
  | .failed => none

/-- `client_ip` of `_process`. -/
def dohClientIp (r : Request) : Text :=
  let real := r.header "x-real-ip".toList
  let forwarded := firstElement (r.header "x-forwarded-for".toList)
  if real≠[] then real else if forwarded≠[] then forwarded else r.client.getD []

/-- The message of a request, or the response that refuses it. -/
def dohWire (r : DohRequest) : Except Response Wire :=
  if r.post then
    if r.http.header "content-type".toList≠"application/dns-message".toList then
      .error (.refused 415 "unsupported media type".toList)
    else .ok r.body
  else match (r.query.lookup "dns".toList).getD [] with
    | [] => .error (.refused 400 "missing dns param".toList)
    | raw => match urlsafeB64decode (padB64 raw) with
      | none => .error (.refused 400 "bad base64".toList)
      | some wire => .ok wire

/-- The response to what `resolve` returns or raises, and the tasks it has
scheduled. -/
def respond : Except Failure (ResolveResult×List Task) → Response×List Task
  | .error _ => (.failed,[])
  | .ok (result,tasks) => (result.wire.elim .failed .answer,tasks)

variable (dns : Dnslib) (cfg : Config) (lists : Lists) (read : Text → RedisGet)
  (net : Server → Exchange)

/-- `_process` -/
def process (r : DohRequest) (token : Option Text) : Response×List Task :=
  let clientIp := dohClientIp r.http
  match dohWire r with
  | .error refusal => (refusal,[])
  | .ok wire =>
    if wire=[] then (.refused 400 "empty query".toList,[])
    else respond (resolve dns cfg lists read net wire (if clientIp=[] then none else some clientIp)
      (userOf lists.dohTokens token))

/-- A request as a client sends it to the proxy. -/
structure ClientRequest where
  /-- Address of the client. -/
  peer : PeerAddress
  /-- Host that it asks. -/
  host : Text
  /-- Path that it asks for. -/
  path : Text
  /-- Headers that it sends. -/
  headers : List Header
  /-- Whether the method is POST. -/
  post : Bool
  /-- Parameters of the query. -/
  query : List (Text×Text)
  /-- Body. -/
  body : Wire

/-- The request that the proxy passes on. -/
def ClientRequest.passed (c : ClientRequest) (client : Option Text) : DohRequest :=
  ⟨proxied c.peer c.headers client,c.post,c.query,c.body⟩

/-- A request on its way through the proxy and the routes of the server. -/
def serve (dnsName : Text) (c : ClientRequest) (client : Option Text) : Response×List Task :=
  match (proxyPath dnsName c.host c.path).bind dohRoute with
  | none => (.refused 404 [],[])
  | some token => process dns cfg lists read net (c.passed client) token

end Handler

section Encoding

/-- The alphabet is read as it is written. -/
theorem digits_urlsafe : Digits urlsafeValue base64Digit := by
  unfold Digits
  decide +kernel

/-- The encoder writes a digit for six bits, and the padding. -/
theorem urlsafeBase64_eq (bytes : List UInt8) :
    urlsafeBase64 bytes=(sextets bytes).map base64Digit++
      List.replicate (padding (sextets bytes).length) '=' := by
  induction bytes using sextets.induct with
  | case1 a b c rest ih =>
    have hpadding : padding (sextets (a::b::c::rest)).length=padding (sextets rest).length := by
      have hlength : (sextets (a::b::c::rest)).length=(sextets rest).length+4 := rfl
      rw [hlength,padding,padding,Nat.add_mod_right]
    rw [hpadding,urlsafeBase64,ih]
    rfl
  | case2 a b => rfl
  | case3 a => rfl
  | case4 => rfl

/-- The digits of some bytes. -/
def digitsOf (bytes : List UInt8) : Text := (sextets bytes).map base64Digit

/-- Six bits are below 64. -/
theorem sextets_lt (bytes : List UInt8) : ∀ n∈sextets bytes, n<64 := by
  induction bytes using sextets.induct with
  | case1 a b c rest ih =>
    have ha := a.toNat_lt
    have hb := b.toNat_lt
    have hc := c.toNat_lt
    intro n hn
    rcases List.mem_append.mp hn with hn|hn
    · simp only [List.mem_cons,List.not_mem_nil,or_false] at hn
      omega
    · exact ih n hn
  | case2 a b =>
    have ha := a.toNat_lt
    have hb := b.toNat_lt
    intro n hn
    simp only [sextets,List.mem_cons,List.not_mem_nil,or_false] at hn
    omega
  | case3 a =>
    have ha := a.toNat_lt
    intro n hn
    simp only [sextets,List.mem_cons,List.not_mem_nil,or_false] at hn
    omega
  | case4 => exact fun n hn => absurd hn List.not_mem_nil

/-- The digits are what is left of an encoded text without its padding. -/
theorem rstripChar_urlsafeBase64 (bytes : List UInt8) :
    rstripChar '=' (urlsafeBase64 bytes)=digitsOf bytes := by
  have hfront : ∀ c∈(digitsOf bytes).getLast?, (c == '=')=false := by
    intro c hc
    obtain ⟨n,hn,rfl⟩ := List.mem_map.mp (List.mem_of_getLast? hc)
    exact beq_eq_false_iff_ne.mpr (digits_urlsafe n (sextets_lt bytes n hn)).1
  have hback : (List.replicate (padding (sextets bytes).length) '=').rdropWhile (· == '=')=[] :=
    List.rdropWhile_eq_nil_iff.mpr fun c hc => beq_iff_eq.mpr (List.eq_of_mem_replicate hc)
  rw [urlsafeBase64_eq,rstripChar]
  change (digitsOf bytes++_).rdropWhile _=_
  rw [rdropWhile_append _ hfront,hback,List.append_nil]

/-- Padding an encoded text without padding restores it. -/
theorem padB64_digitsOf (bytes : List UInt8) : padB64 (digitsOf bytes)=urlsafeBase64 bytes := by
  rw [padB64,digitsOf,List.length_map,urlsafeBase64_eq]

/-- An encoded text is padded already. -/
theorem padB64_urlsafeBase64 (bytes : List UInt8) :
    padB64 (urlsafeBase64 bytes)=urlsafeBase64 bytes := by
  have hlength : padding (urlsafeBase64 bytes).length=0 := by
    rw [urlsafeBase64_eq,List.length_append,List.length_map,List.length_replicate,padding,padding]
    omega
  rw [padB64,hlength,List.replicate_zero,List.append_nil]

/-- What is encoded is decoded again. -/
theorem urlsafeB64decode_urlsafeBase64 (bytes : List UInt8) :
    urlsafeB64decode (urlsafeBase64 bytes)=some bytes := by
  have hdigit : ∀ n<64, (base64Digit n).toNat<128 := by decide +kernel
  have hascii : (urlsafeBase64 bytes).all (fun c => c.toNat<128)=true := by
    rw [urlsafeBase64_eq,List.all_append,Bool.and_eq_true]
    constructor
    · refine List.all_eq_true.mpr fun c hc => ?_
      obtain ⟨n,hn,rfl⟩ := List.mem_map.mp hc
      exact decide_eq_true (hdigit n (sextets_lt bytes n hn))
    · refine List.all_eq_true.mpr fun c hc => ?_
      rw [List.eq_of_mem_replicate hc]
      rfl
  rw [urlsafeB64decode,if_pos hascii,urlsafeBase64_eq,a2bBase64,
    a2bFrom_sextets digits_urlsafe]

end Encoding

section Attribution

/-- A task for another client and user. -/
def taskFor (clientIp : Option Text) (userId : Option ℕ) : Task → Task
  | .resolveThenLog entry => .resolveThenLog {entry with clientIp := clientIp, userId := userId}
  | task => task

/-- An outcome for another client and user. -/
def attributed (clientIp : Option Text) (userId : Option ℕ) (out : ResolveResult×List Task) :
    ResolveResult×List Task :=
  (out.1,out.2.map (taskFor clientIp userId))

variable (dns : Dnslib) (cfg : Config) (lists : Lists) (read : Text → RedisGet)
  (net : Server → Exchange) (clientIp : Option Text) (userId : Option ℕ)

/-- A name is sinkholed alike for everyone. -/
theorem block_attributed (request : DNSRecord) (domain : Text) (qtype : QType)
    (verdict : Verdict) : block dns cfg request domain qtype verdict clientIp userId=
      attributed clientIp userId (block dns cfg request domain qtype verdict none none) := by
  unfold block attributed
  by_cases hsource : verdict.source="blocklist".toList
  · simp only [if_pos hsource]
    rfl
  · simp only [if_neg hsource]
    rfl

/-- The stages behind the cache are the same for everyone. -/
theorem resolveCached_attributed (request : DNSRecord) (qname : Text) (qtype : QType)
    (cached : Option Verdict) :
    resolveCached dns cfg lists net request qname qtype cached clientIp userId=
      attributed clientIp userId
        (resolveCached dns cfg lists net request qname qtype cached none none) := by
  unfold resolveCached
  split
  · exact block_attributed ..
  split
  · rfl
  split
  · rfl
  · split <;> rfl

/-- The resolver answers everyone alike, and schedules the same tasks. -/
theorem resolve_attributed (wire : Wire) :
    resolve dns cfg lists read net wire clientIp userId=
      (resolve dns cfg lists read net wire none none).map (attributed clientIp userId) := by
  unfold resolve
  split
  · rfl
  unfold resolveName
  dsimp only
  split
  · rfl
  split
  · rfl
  split
  · exact congrArg Except.ok (block_attributed ..)
  split
  · rfl
  · exact congrArg Except.ok (resolveCached_attributed ..)

end Attribution

section Serving

variable {c : ClientRequest} {message : Wire}

/-- The client asks with a message in one of the ways that the standard has. -/
def ClientRequest.Asks (c : ClientRequest) (message : Wire) : Prop :=
  if c.post then
    (Request.mk c.headers none).header "content-type".toList="application/dns-message".toList ∧
      c.body=message
  else c.query.lookup "dns".toList=some (urlsafeBase64 message) ∨
    c.query.lookup "dns".toList=some (rstripChar '=' (urlsafeBase64 message))

/-- The proxy leaves a header alone that it does not set. -/
theorem header_passed {name : Text}
    (hreal : name≠"x-real-ip".toList) (hforwarded : name≠"x-forwarded-for".toList)
    (peer : PeerAddress) (headers : List Header) (client : Option Text) :
    (proxied peer headers client).header name=(Request.mk headers none).header name := by
  have h : (["x-real-ip".toList,"x-forwarded-for".toList].contains name)=false := by
    rw [List.contains_cons,List.contains_cons,beq_eq_false_iff_ne.mpr hreal,
      beq_eq_false_iff_ne.mpr hforwarded]
    rfl
  have hset : ∀ x∈setHeaders peer headers, (lower x.name == name)=false := by
    have hfirst : lower "X-Real-IP".toList="x-real-ip".toList := by decide +kernel
    have hsecond : lower "X-Forwarded-For".toList="x-forwarded-for".toList := by decide +kernel
    rw [setHeaders]
    refine List.forall_mem_cons.mpr ⟨?_,List.forall_mem_singleton.mpr ?_⟩
    · rw [hfirst]
      exact beq_eq_false_iff_ne.mpr (Ne.symm hreal)
    · rw [hsecond]
      exact beq_eq_false_iff_ne.mpr (Ne.symm hforwarded)
  have hfront : (setHeaders peer headers).find? (fun x => lower x.name == name)=none :=
    List.find?_eq_none.mpr fun x hx => Bool.eq_false_iff.mp (hset x hx)
  have hrest (list : List Header) : (list.filter fun x =>
      !(["x-real-ip".toList,"x-forwarded-for".toList].contains (lower x.name))).find?
        (fun x => lower x.name == name)=list.find? fun x => lower x.name == name := by
    rw [List.find?_filter]
    refine congrFun (congrArg List.find? (funext fun x => ?_)) list
    by_cases hx : lower x.name=name
    · rw [hx,h,beq_self_eq_true]
      rfl
    · simp only [beq_eq_false_iff_ne.mpr hx,Bool.false_eq_true,and_false,decide_false]
  rw [Request.header,Request.header,proxied]
  dsimp only
  rw [List.find?_append,hfront,Option.none_or,hrest]

/-- The address of a request behind the proxy is the peer's, whatever headers
the client sends. -/
theorem dohClientIp_proxied (peer : PeerAddress) (headers : List Header) (client : Option Text) :
    dohClientIp (proxied peer headers client)=peer.text := by
  have hname : (lower "X-Real-IP".toList == "x-real-ip".toList)=true := by decide +kernel
  have hreal : (proxied peer headers client).header "x-real-ip".toList=peer.text := by
    simp only [Request.header,proxied,setHeaders,List.cons_append,List.find?_cons,hname,
      Option.map_some,Option.getD_some]
  rw [dohClientIp,hreal]
  exact if_pos peer.nonempty

/-- The server gets the message that a client asks with. -/
theorem dohWire_passed (h : c.Asks message) (hne : message≠[]) (client : Option Text) :
    dohWire (c.passed client)=.ok message := by
  have hget (raw : Text) (hraw : c.query.lookup "dns".toList=some raw) (hpost : c.post=false)
      (hdecode : urlsafeB64decode (padB64 raw)=some message) :
      dohWire (c.passed client)=.ok message := by
    have hraw' : (c.passed client).query.lookup "dns".toList=some raw := hraw
    have hmethod : ¬(c.passed client).post=true := Bool.eq_false_iff.mp hpost
    rw [dohWire,if_neg hmethod,hraw',Option.getD_some]
    cases raw with
    | nil =>
      have hempty : urlsafeB64decode (padB64 [])=some [] := rfl
      exact absurd (Option.some.inj (hdecode.symm.trans hempty)) hne
    | cons d raw =>
      dsimp only
      rw [hdecode]
  rw [ClientRequest.Asks] at h
  split at h
  · rename_i hpost
    have hmethod : (c.passed client).post=true := hpost
    have hheader : (c.passed client).http.header "content-type".toList=
        "application/dns-message".toList :=
      (header_passed (by decide) (by decide) c.peer c.headers client).trans h.1
    rw [dohWire,if_pos hmethod,hheader,if_neg (not_not_intro rfl)]
    exact congrArg Except.ok h.2
  · rename_i hpost
    rcases h with h|h
    · exact hget _ h (Bool.eq_false_iff.mpr hpost)
        (by rw [padB64_urlsafeBase64,urlsafeB64decode_urlsafeBase64])
    · refine hget _ h (Bool.eq_false_iff.mpr hpost) ?_
      rw [rstripChar_urlsafeBase64,padB64_digitsOf,urlsafeB64decode_urlsafeBase64]

/-- A host that matches starts with 48 hexadecimal digits. -/
theorem isHex_take {dnsName host rest : Text} (h : rest∈(hostPattern dnsName).ends host) :
    (host.take 48).length=48 ∧ ∀ c∈host.take 48, isHex c=true := by
  obtain ⟨front,hfront,hclasses⟩ := Regex.mem_ends_classes h
  have hlength := hclasses.length_eq
  rw [List.length_append,List.length_replicate] at hlength
  have htake : host.take 48=front.take 48 := by
    rw [hfront,List.take_append_of_le_length (by omega)]
  have hdigits := List.forall₂_take 48 hclasses
  rw [List.take_left' List.length_replicate] at hdigits
  rw [htake]
  refine ⟨by rw [←hdigits.length_eq,List.length_replicate],fun c hc => ?_⟩
  obtain ⟨i,hi,rfl⟩ := List.getElem_of_mem hc
  have hclass := hdigits.get (by rw [hdigits.length_eq]; exact hi) hi
  rwa [List.get_eq_getElem,List.get_eq_getElem,List.getElem_replicate] at hclass

/-- Every path that the proxy asks for has a route. -/
theorem dohRoute_proxyPath {dnsName host path passed : Text}
    (h : proxyPath dnsName host path=some passed) : ∃ token, dohRoute passed=some token := by
  rw [proxyPath] at h
  split at h
  · cases h
  split at h
  · obtain rfl := Option.some.inj h
    rw [dohUpstream]
    split
    · rename_i hmatch
      obtain ⟨rest,hrest,-⟩ := List.any_eq_true.mp hmatch
      obtain ⟨hlength,hhex⟩ := isHex_take hrest
      have hslash : '/'∉(asciiLower host).take 48 := fun hmem => absurd (hhex _ hmem) (by decide)
      exact ⟨_,dohRoute_token (List.ne_nil_of_length_pos (by omega)) hslash⟩
    · exact ⟨none,if_pos rfl⟩
  · rename_i hother
    obtain ⟨hpath,heq⟩ := Option.ite_none_right_eq_some.mp h
    obtain rfl := Option.some.inj heq
    have hslash : '/'∉path.drop 11 := fun hmem =>
      absurd (List.all_eq_true.mp hpath.2.2 _ hmem) (by decide)
    exact ⟨_,by rw [dohRoute,if_neg hother,if_pos ⟨hpath.1,hpath.2.1,hslash⟩]⟩

variable (dns : Dnslib) (cfg : Config) (lists : Lists) (read : Text → RedisGet)
  (net : Server → Exchange)

/-- A message is processed for the peer and the user of the token. -/
theorem process_passed (h : c.Asks message) (hne : message≠[]) (client token : Option Text) :
    process dns cfg lists read net (c.passed client) token=
      respond ((resolve dns cfg lists read net message none none).map
        (attributed (some c.peer.text) (userOf lists.dohTokens token))) := by
  have hpeer : dohClientIp (c.passed client).http=c.peer.text :=
    dohClientIp_proxied c.peer c.headers client
  rw [process,dohWire_passed h hne,hpeer]
  dsimp only
  rw [if_neg hne,if_neg c.peer.nonempty,resolve_attributed]

/-- The answer message of the response is the wire that `resolve` gives. -/
theorem respond_wire (out : ResolveResult×List Task) : (respond (.ok out)).1.wire=out.1.wire := by
  change Response.wire (out.1.wire.elim .failed .answer)=out.1.wire
  cases out.1.wire <;> rfl

/-- Over UDP the answer is the same, unless it is empty. -/
theorem handle_resolve (clientIp : Option Text) (userId : Option ℕ) :
    handle true (resolve dns cfg lists read net message clientIp userId)=
      (respond (resolve dns cfg lists read net message none none)).1.wire.filter (· ≠ []) := by
  rw [resolve_attributed]
  cases resolve dns cfg lists read net message none none with
  | error failure => rfl
  | ok out =>
    rw [respond_wire]
    change out.1.wire.filter (fun wire => true && decide (wire≠[]))=_
    simp only [Bool.true_and]

/-- Over TCP the answer is the same, unless it is empty or has no length of two
bytes. -/
theorem written_resolve (clientIp : Option Text) (userId : Option ℕ) (drained : Bool) :
    Served.written ⟨message,resolve dns cfg lists read net message clientIp userId,drained⟩=
      (respond (resolve dns cfg lists read net message none none)).1.wire.filter fun wire =>
        wire≠[] ∧ wire.length<frameLimit := by
  rw [resolve_attributed]
  cases resolve dns cfg lists read net message none none with
  | error failure => rfl
  | ok out =>
    rw [respond_wire]
    rfl

/-- A message that the proxy lets through is answered with the bytes that the
UDP and the TCP listener send for it, whoever asks, in either method, with or
without padding, whatever headers the client adds. The tasks are the same too,
but for the rows of the block log: these have the address of the peer and the
user of the token. -/
theorem doh_serves_as_udp (dnsName : Text) (client : Option Text) (hasks : c.Asks message)
    (hne : message≠[]) {path : Text} (hpath : proxyPath dnsName c.host c.path=some path) :
    let out := serve dns cfg lists read net dnsName c client
    (∃ token, dohRoute path=some token ∧
      out=respond ((resolve dns cfg lists read net message none none).map
        (attributed (some c.peer.text) (userOf lists.dohTokens token)))) ∧
    ∀ address drained,
      let resolved := resolve dns cfg lists read net message address none
      resolved=(resolve dns cfg lists read net message none none).map (attributed address none) ∧
      handle true resolved=out.1.wire.filter (· ≠ []) ∧
      Served.written ⟨message,resolved,drained⟩=
        out.1.wire.filter fun wire => wire≠[] ∧ wire.length<frameLimit := by
  intro out
  obtain ⟨token,htoken⟩ := dohRoute_proxyPath hpath
  have hout : out=respond ((resolve dns cfg lists read net message none none).map
      (attributed (some c.peer.text) (userOf lists.dohTokens token))) := by
    change serve dns cfg lists read net dnsName c client=_
    rw [serve,hpath,Option.bind_some,htoken]
    exact process_passed dns cfg lists read net hasks hne client token
  have hwire : out.1.wire=
      (respond (resolve dns cfg lists read net message none none)).1.wire := by
    rw [hout]
    cases resolve dns cfg lists read net message none none with
    | error failure => rfl
    | ok result => rfl
  refine ⟨⟨token,htoken,hout⟩,fun address drained => ⟨?_,?_,?_⟩⟩
  · exact resolve_attributed dns cfg lists read net address none message
  · rw [hwire]
    exact handle_resolve dns cfg lists read net address none
  · rw [hwire]
    exact written_resolve dns cfg lists read net address none drained

end Serving

/-- A GET without padding to the host of a token, with an address that the
client makes up. -/
def tokenRequest : ClientRequest where
  peer := ⟨"192.0.2.7".toList,by decide,by decide⟩
  host := (Issuance.registration fun _ => 0xA5).token++ '.'::scamlensServer.name
  path := "/dns-query".toList
  headers := [⟨"X-Real-IP".toList,"198.51.100.1".toList⟩]
  post := false
  query := [("dns".toList,rstripChar '=' (urlsafeBase64 (aQuery "evil.com".toList)))]
  body := []

/-- Lists with one sinkholed domain and one token. -/
def tokenLists : Lists where
  blocklist := {"evil.com".toList}
  whitelist := ∅
  typosquat := ⟨[],fun _ _ _ => false⟩
  dohTokens := Finmap.singleton (Issuance.registration fun _ => 0xA5).token 7

/-- The request is answered as over UDP, and attributed to the peer and the user
of the token. -/
theorem tokenRequest_served :
    let resolved := resolve plainDns defaultConfig tokenLists (fun _ => .reply none)
      (fun _ => ⟨.timeout,.timeout⟩) (aQuery "evil.com".toList) none none
    let out := serve plainDns defaultConfig tokenLists (fun _ => .reply none)
      (fun _ => ⟨.timeout,.timeout⟩) scamlensServer.name tokenRequest none
    out=respond (resolved.map (attributed (some "192.0.2.7".toList) (some 7))) ∧
      handle true resolved=out.1.wire.filter (· ≠ []) := by
  intro resolved out
  have htoken : userOf tokenLists.dohTokens
      (some (Issuance.registration fun _ => 0xA5).token)=some 7 := by
    rw [userOf,Option.bind_some,if_neg (Issuance.token_ne_nil _)]
    exact Finmap.lookup_singleton_eq
  have hpath : proxyPath scamlensServer.name tokenRequest.host tokenRequest.path=
      some ("/dns-query/".toList++(Issuance.registration fun _ => 0xA5).token) := by
    decide +kernel
  have hroute := dohRoute_token (Issuance.token_ne_nil (.registration fun _ => 0xA5))
    (Issuance.not_mem _ (by decide))
  have hne : aQuery "evil.com".toList≠[] := by decide
  have hserved := doh_serves_as_udp plainDns defaultConfig tokenLists (fun _ => .reply none)
    (fun _ => ⟨.timeout,.timeout⟩) scamlensServer.name none
    (c := tokenRequest) (Or.inr rfl) hne hpath
  obtain ⟨⟨token,hfound,hout⟩,hothers⟩ := hserved
  obtain rfl := Option.some.inj (hroute.symm.trans hfound)
  rw [htoken] at hout
  exact ⟨hout,(hothers none true).2.1⟩

end ScamLens.DohRequests
