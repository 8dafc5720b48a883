import ScamLens.PlainMessages
import ScamLens.Resolver

/-!
# Sockets of the resolver

The upstream client opens one socket for every query to a server and takes the
first datagram that arrives on it, whoever sent it; nothing compares it with the
query. The answer of a server that truncates is read from a TCP stream. The UDP
listener sends back what the resolver returns, as it is, so a client gets the
messages of the upstream servers without regard to how much it can take.
-/

namespace ScamLens.UpstreamSockets

open PlainMessages PythonText Resolver Upstream VerdictCache

section Sockets

/-- What arrives on the socket of a UDP query before its timeout. -/
inductive Arrival where
  /-- `datagram_received`. -/
  | datagram (data : Wire)
  /-- `error_received`. -/
  | error
  deriving DecidableEq

/-- The outcome that an arrival sets the future to. -/
def Arrival.recv : Arrival → Recv
  | .datagram data => .data data
  | .error => .error

/-- A callback of `_Proto`: the future is set once. -/
def setFuture (fut : Option Recv) (arrival : Arrival) : Option Recv :=
  fut.or (some arrival.recv)

/-- `_udp_query` under its timeout, given the arrivals on its socket in their
order. -/
def udpQuery (arrivals : List Arrival) : Recv := (arrivals.foldl setFuture none).getD .timeout

/-- What a TCP connection to a server delivers before the timeout. -/
inductive Stream where
  /-- Connecting takes too long. -/
  | timeout
  /-- Connecting fails. -/
  | refused
  /-- The bytes that arrive, and whether the server closes the stream. -/
  | bytes (data : Wire) (closed : Bool)
  deriving DecidableEq

/-- `_tcp_query` under its timeout: the two bytes of a length, and as many
bytes. A stream that is closed before that is an error. -/
def tcpQuery : Stream → Recv
  | .timeout => .timeout
  | .refused => .error
  | .bytes data closed =>
    let short := if closed then Recv.error else .timeout
    match data with
    | b1::b0::body =>
      let length := b1.toNat*256+b0.toNat
      if length≤body.length then .data (body.take length) else short
    | _ => short

/-- The sockets of a query to one server. -/
structure Sockets where
  /-- Arrivals on the UDP socket. -/
  arrivals : List Arrival
  /-- The TCP connection, opened only after a truncated answer. -/
  stream : Stream

/-- What the two attempts at a server deliver. -/
def Sockets.exchange (s : Sockets) : Exchange := ⟨udpQuery s.arrivals,tcpQuery s.stream⟩

/-- What all attempts deliver. -/
def exchanges (sockets : Server → Sockets) (server : Server) : Exchange :=
  (sockets server).exchange

/-- The message id in the header of a message. -/
def messageId : Wire → Option ℕ
  | b1::b0::_ => some (b1.toNat*256+b0.toNat)
  | _ => none

/-- A message that a server's sockets give to a query: the first datagram that
arrives if it is whole, and otherwise the message of the TCP stream. -/
def Gives (s : Sockets) (message : Wire) : Prop :=
  ∃ first later, s.arrivals=.datagram first::later ∧
    ((isTruncated first=false ∧ message=first) ∨
      (isTruncated first=true ∧ tcpQuery s.stream=.data message))

variable {sockets : Server → Sockets} {answer : Wire}

/-- A future that is set stays as it is. -/
theorem foldl_setFuture (recv : Recv) (arrivals : List Arrival) :
    arrivals.foldl setFuture (some recv)=some recv := by
  induction arrivals with
  | nil => rfl
  | cons arrival arrivals ih => exact ih

/-- The first arrival decides a UDP query. -/
theorem udpQuery_cons (arrival : Arrival) (later : List Arrival) :
    udpQuery (arrival::later)=arrival.recv := by
  rw [udpQuery,List.foldl_cons]
  change (later.foldl setFuture (some arrival.recv)).getD .timeout=_
  rw [foldl_setFuture,Option.getD_some]

/-- A UDP query delivers the first datagram. -/
theorem udpQuery_eq_data {arrivals : List Arrival} (h : udpQuery arrivals=.data answer) :
    ∃ later, arrivals=.datagram answer::later := by
  cases arrivals with
  | nil => cases h
  | cons arrival later =>
    rw [udpQuery_cons] at h
    cases arrival with
    | error => cases h
    | datagram data =>
      cases h
      exact ⟨later,rfl⟩

/-- A server gives the answer of a query, or is passed over. -/
theorem queryServers_cons {server : Server} {servers : List Server}
    (h : queryServers (exchanges sockets) (server::servers)=some answer) :
    Gives (sockets server) answer ∨ queryServers (exchanges sockets) servers=some answer := by
  rw [queryServers] at h
  cases hudp : (exchanges sockets server).udp with
  | timeout =>
    rw [hudp] at h
    exact .inr h
  | error =>
    rw [hudp] at h
    exact .inr h
  | data first =>
    obtain ⟨later,hfirst⟩ := udpQuery_eq_data hudp
    rw [hudp] at h
    dsimp only at h
    split at h
    · rename_i htruncated
      cases htcp : (exchanges sockets server).tcp with
      | data full =>
        rw [htcp] at h
        cases h
        exact .inl ⟨first,later,hfirst,.inr ⟨htruncated.2,htcp⟩⟩
      | timeout =>
        rw [htcp] at h
        exact .inr h
      | error =>
        rw [htcp] at h
        exact .inr h
    · rename_i hwhole
      split at h
      · rename_i hne
        cases h
        have hnot : isTruncated answer=false := Bool.eq_false_iff.mpr fun ht => hwhole ⟨hne,ht⟩
        exact .inl ⟨answer,later,hfirst,.inl ⟨hnot,rfl⟩⟩
      · exact .inr h

/-- A query returns a message that the sockets of one server give. -/
theorem queryServers_gives {servers : List Server}
    (h : queryServers (exchanges sockets) servers=some answer) :
    ∃ server∈servers, Gives (sockets server) answer := by
  induction servers with
  | nil => cases h
  | cons server servers ih =>
    rcases queryServers_cons h with hgives|hlater
    · exact ⟨server,List.mem_cons_self,hgives⟩
    · obtain ⟨found,hfound,hgives⟩ := ih hlater
      exact ⟨found,List.mem_cons_of_mem _ hfound,hgives⟩

/-- A query returns a message that the sockets of one of the two servers give. -/
theorem query_gives (h : query (exchanges sockets)=some answer) :
    ∃ server, Gives (sockets server) answer := by
  obtain ⟨server,-,hgives⟩ := queryServers_gives h
  exact ⟨server,hgives⟩

end Sockets

section Forwarding

variable (dns : Dnslib)

/-- What the forward path sends back is the reply it builds when neither server
answers, or a message that the sockets of one of the two servers give. -/
theorem forward_gives (sockets : Server → Sockets) (request : DNSRecord) (domain : Text) :
    (query (exchanges sockets)=none ∧ (forward dns (exchanges sockets) request domain).wire=
        dns.pack {request.reply with rcode := servfailCode}) ∨
      ∃ server answer, Gives (sockets server) answer ∧
        (forward dns (exchanges sockets) request domain).wire=some answer := by
  rw [forward]
  cases hquery : query (exchanges sockets) with
  | none => exact .inl ⟨rfl,rfl⟩
  | some answer =>
    obtain ⟨server,hgives⟩ := query_gives hquery
    exact .inr ⟨server,answer,hgives,rfl⟩

/-- The query, and with it the forward path of the resolver, returns the first
datagram that arrived on the socket of one of the servers, however many follow,
or the TCP message of a server whose first datagram is truncated. So what it
returns carries the id of the query if these messages do. -/
theorem query_returns_first_arrival (sockets : Server → Sockets) (wire : Wire) :
    (∀ answer, query (exchanges sockets)=some answer →
      ∃ server, Gives (sockets server) answer) ∧
    (∀ request domain, query (exchanges sockets)≠none →
      ∃ server answer, Gives (sockets server) answer ∧
        (forward dns (exchanges sockets) request domain).wire=some answer) ∧
    ((∀ server message, Gives (sockets server) message → messageId message=messageId wire) →
      (∀ answer, query (exchanges sockets)=some answer → messageId answer=messageId wire) ∧
      ∀ request domain, query (exchanges sockets)≠none →
        (forward dns (exchanges sockets) request domain).wire.map messageId=
          some (messageId wire)) := by
  have hforward (request : DNSRecord) (domain : Text) (hsome : query (exchanges sockets)≠none) :
      ∃ server answer, Gives (sockets server) answer ∧
        (forward dns (exchanges sockets) request domain).wire=some answer :=
    (forward_gives dns sockets request domain).resolve_left fun hnone => hsome hnone.1
  refine ⟨fun answer h => query_gives h,hforward,fun hid => ⟨fun answer h => ?_,
    fun request domain hsome => ?_⟩⟩
  · obtain ⟨server,hgives⟩ := query_gives h
    exact hid server answer hgives
  · obtain ⟨server,answer,hgives,hwire⟩ := hforward request domain hsome
    rw [hwire,Option.map_some,hid server answer hgives]

/-- A datagram with another id than the query of `a.bc`. -/
def forged : Wire := packRecord {aQuestion "a.bc".toList with id := 1, qr := true}

/-- Sockets on which a forged datagram arrives before the true one. -/
def forgedSockets : Server → Sockets := fun _ =>
  ⟨[.datagram forged,.datagram (packRecord {aQuestion "a.bc".toList with qr := true})],.refused⟩

/-- The forged datagram is the answer of the query, and the resolver sends it on
to the client. -/
theorem query_accepts_forged :
    ¬(∀ answer, query (exchanges forgedSockets)=some answer →
      messageId answer=messageId (aQuery "a.bc".toList)) ∧
    (forward plainDns (exchanges forgedSockets) (aQuestion "a.bc".toList)
      "a.bc".toList).wire.map messageId≠some (messageId (aQuery "a.bc".toList)) := by
  refine ⟨fun h => ?_,by decide⟩
  exact absurd (h forged (by decide)) (by decide)

end Forwarding

section Listener

/-- `UDPServer._handle`: the datagram sent back, if there is one. -/
def handle (connected : Bool) (resolved : Except Failure (ResolveResult×List Task)) :
    Option Wire :=
  match resolved with
  | .error _ => none
  | .ok (result,_) => result.wire.filter fun wire => connected && wire≠[]

/-- What a client takes over UDP, given the payload size its query advertises. -/
def clientLimit (ednsSize : Option ℕ) : ℕ := max 512 (ednsSize.getD 0)

/-- A message with one question and at most one address under the name of the
question is packed to at most 512 bytes, if it can be packed. -/
def PackFits (dns : Dnslib) : Prop :=
  ∀ r : DNSRecord, r.rr=[] ∨ (∃ ttl ip, r.rr=[⟨r.qname,1,ttl,ip⟩]) →
    ∀ wire, dns.pack r=some wire → wire.length≤512

variable {dns : Dnslib} {cfg : Config} {lists : Lists} {read : Text → RedisGet}
  {net : Server → Exchange} {request : DNSRecord} {clientIp : Option Text} {userId : Option ℕ}

/-- The wire of an answer: a reply packed for the request, or the one of the
forward path. -/
def Packed (dns : Dnslib) (cfg : Config) (net : Server → Exchange) (request : DNSRecord)
    (wire : Option Wire) : Prop :=
  (∃ qtype, wire=dns.pack (sinkholeReply cfg request qtype)) ∨
    ∃ domain, wire=(forward dns net request domain).wire

/-- The stages behind the cache lookup answer so. -/
theorem resolveCached_packed (qname : Text) (qtype : QType) (cached : Option Verdict) :
    Packed dns cfg net request
      (resolveCached dns cfg lists net request qname qtype cached clientIp userId).1.wire := by
  unfold resolveCached
  split
  · exact .inl ⟨qtype,rfl⟩
  · split
    · exact .inr ⟨qname,rfl⟩
    · split
      · exact .inl ⟨qtype,rfl⟩
      · exact .inr ⟨qname,rfl⟩

/-- Every answer to a request that parses is packed for it or forwarded. -/
theorem resolveName_packed {qname : Text} {out : ResolveResult×List Task}
    (h : resolveName dns cfg lists read net request qname clientIp userId=.ok out) :
    Packed dns cfg net request out.1.wire := by
  unfold resolveName at h
  dsimp only at h
  split at h
  · cases h
    exact .inr ⟨qname,rfl⟩
  · split at h
    · cases h
      exact .inr ⟨qname,rfl⟩
    · split at h
      · cases h
        exact .inl ⟨_,rfl⟩
      · split at h
        · cases h
        · cases h
          exact resolveCached_packed qname _ _

/-- Packed replies fit. -/
theorem sinkholeReply_fits (hpack : PackFits dns) (qtype : QType) {wire : Wire}
    (h : dns.pack (sinkholeReply cfg request qtype)=some wire) : wire.length≤512 := by
  refine hpack _ ?_ wire h
  cases qtype with
  | a => exact .inr ⟨cfg.blockTtl,cfg.blockIp,rfl⟩
  | aaaa => exact .inl rfl
  | https => exact .inl rfl
  | other => exact .inl rfl

/-- What the listener sends back is no longer than the client's limit unless it
is marked as truncated, or is a message of an upstream server as it came. -/
theorem handle_fits (dns : Dnslib) (hpack : PackFits dns) (cfg : Config) (lists : Lists)
    (read : Text → RedisGet) (sockets : Server → Sockets) (wire : Wire)
    (clientIp : Option Text) (userId ednsSize : Option ℕ) (connected : Bool) (datagram : Wire)
    (h : handle connected (resolve dns cfg lists read (exchanges sockets) wire clientIp userId)=
      some datagram) :
    datagram.length ≤ clientLimit ednsSize ∨ isTruncated datagram=true ∨
      ∃ server, Gives (sockets server) datagram := by
  have hlimit : 512 ≤ clientLimit ednsSize := le_max_left _ _
  cases hresolve : resolve dns cfg lists read (exchanges sockets) wire clientIp userId with
  | error failure =>
    rw [hresolve] at h
    cases h
  | ok out =>
    rw [hresolve,handle] at h
    obtain ⟨hwire,-⟩ := Option.filter_eq_some_iff.mp h
    rw [resolve] at hresolve
    cases hparse : dns.parse wire with
    | none =>
      rw [hparse] at hresolve
      cases hresolve
      rw [servfail,hparse] at hwire
      cases hwire
      exact .inl (Nat.zero_le _)
    | some request =>
      rw [hparse] at hresolve
      rcases resolveName_packed hresolve with ⟨qtype,hlocal⟩|⟨domain,hforward⟩
      · exact .inl ((sinkholeReply_fits hpack qtype (hlocal.symm.trans hwire)).trans hlimit)
      · rcases forward_gives dns sockets request domain with
          ⟨-,hservfail⟩|⟨server,answer,hgives,hanswer⟩
        · exact .inl ((hpack _ (.inl rfl) _
            (hservfail.symm.trans (hforward.symm.trans hwire))).trans hlimit)
        · obtain rfl := Option.some.inj (hanswer.symm.trans (hforward.symm.trans hwire))
          exact .inr (.inr ⟨server,hgives⟩)

/-- Lists with one blocked domain. -/
def oneBlocked : Lists where
  blocklist := {"a.bc".toList}
  whitelist := ∅
  typosquat := ⟨[],fun _ _ _ => false⟩
  dohTokens := ∅

/-- The sample library, cut to what fits. -/
def fittingDns : Dnslib := {plainDns with pack := fun r => (plainDns.pack r).map (·.take 512)}

/-- Everything it packs fits. -/
theorem fittingDns_fits : PackFits fittingDns := by
  intro r _ wire h
  obtain ⟨bytes,-,rfl⟩ := Option.map_eq_some_iff.mp h
  exact List.length_take_le 512 bytes

/-- A server whose answer does not fit a datagram of its own. -/
def largeSockets : Server → Sockets := fun _ =>
  ⟨[.datagram [0,0,2,0]],.bytes (2::88::List.replicate 600 0) false⟩

/-- The block page is sent back in a datagram that fits. -/
theorem handle_fits_blocked :
    ∃ datagram, handle true (resolve fittingDns defaultConfig oneBlocked (fun _ => .reply none)
        (exchanges largeSockets) (aQuery "a.bc".toList) none none)=some datagram ∧
      (datagram.length ≤ clientLimit none ∨ isTruncated datagram=true ∨
        ∃ server, Gives (largeSockets server) datagram) := by
  refine ⟨packRecord (sinkholeReply defaultConfig (aQuestion "a.bc".toList) .a),?_,
    handle_fits fittingDns fittingDns_fits defaultConfig oneBlocked (fun _ => .reply none)
      largeSockets (aQuery "a.bc".toList) none none none true _ ?_⟩
  all_goals decide +kernel

/-- The 600 bytes that the server sends over TCP go to the client in one
datagram that is not marked as truncated. -/
theorem handle_sends_large :
    ¬∀ datagram, handle true (resolve plainDns defaultConfig oneBlocked (fun _ => .reply none)
        (exchanges largeSockets) (aQuery "a.local".toList) none none)=some datagram →
      datagram.length ≤ clientLimit none ∨ isTruncated datagram=true := by
  intro h
  rcases h (List.replicate 600 0) (by decide +kernel) with hlength|htruncated
  · exact absurd hlength (by decide +kernel)
  · exact absurd htruncated (by decide +kernel)

end Listener

end ScamLens.UpstreamSockets
