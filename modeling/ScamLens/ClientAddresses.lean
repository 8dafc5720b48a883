import ScamLens.PythonText
import ScamLens.SeparatorChains

/-!
# Addresses of clients behind the proxy

The proxy passes requests of the API on with the address of its peer appended
to the X-Forwarded-For lines of the request. The rate limiter and the report
endpoint take the first element of that list for the client, which is the
peer's address only when the client sends no such line.
-/

namespace ScamLens.ClientAddresses

open PythonText SeparatorChains

/-- The address of a peer as the proxy writes it. -/
structure PeerAddress where
  /-- The text. -/
  text : Text
  /-- It is not empty. -/
  nonempty : text≠[]
  /-- IPv4 or IPv6 digits and their separators. -/
  chars : ∀ c∈text, c∈"0123456789abcdef.:".toList

/-- A header line. -/
structure Header where
  /-- Name, in any letter case. -/
  name : Text
  /-- Value. -/
  value : Text

/-- The X-Forwarded-For lines among some headers. -/
def forwardedLines (headers : List Header) : List Text :=
  (headers.filter fun h => lower h.name == "x-forwarded-for".toList).map (·.value)

/-- `$proxy_add_x_forwarded_for` -/
def proxyAddXForwardedFor (peer : PeerAddress) (headers : List Header) : Text :=
  (forwardedLines headers).flatMap (·++", ".toList)++peer.text

/-- The `proxy_set_header` lines of the API that depend on the peer. -/
def setHeaders (peer : PeerAddress) (headers : List Header) : List Header :=
  [⟨"X-Real-IP".toList,peer.text⟩,
    ⟨"X-Forwarded-For".toList,proxyAddXForwardedFor peer headers⟩]

/-- A request as the API gets it. -/
structure Request where
  /-- Its headers. -/
  headers : List Header
  /-- `request.client.host`, if there is a client. -/
  client : Option Text

/-- The request that the proxy passes on: a header that it sets replaces the
client's lines of that name. -/
def proxied (peer : PeerAddress) (headers : List Header) (client : Option Text) : Request where
  headers := setHeaders peer headers++headers.filter fun h =>
    !(["x-real-ip".toList,"x-forwarded-for".toList].contains (lower h.name))
  client := client

/-- `request.headers.get(name, "")` -/
def Request.header (r : Request) (name : Text) : Text :=
  ((r.headers.find? fun h => lower h.name == name).map (·.value)).getD []

/-- `fwd.split(",")[0].strip()` -/
def firstElement (fwd : Text) : Text := strip ((fwd.splitOn ',').headD [])

/-- `get_remote_address` -/
def getRemoteAddress (r : Request) : Text :=
  if r.client.getD []=[] then "127.0.0.1".toList else r.client.getD []

/-- `_key` of the rate limiter. -/
def key (r : Request) : Text :=
  let fwd := r.header "x-forwarded-for".toList
  if fwd=[] then getRemoteAddress r else firstElement fwd

/-- `_client_ip` of the report endpoint. -/
def clientIp (r : Request) : Text :=
  let fwd := r.header "x-forwarded-for".toList
  if fwd=[] then r.client.getD "0.0.0.0".toList else firstElement fwd

/-- The client by the headers of its request: the first element of its first
X-Forwarded-For line, or its address when it sends none. -/
def claimedAddress (peer : PeerAddress) (headers : List Header) : Text :=
  match forwardedLines headers with
  | [] => peer.text
  | line::_ => firstElement line

variable (peer : PeerAddress) (headers : List Header) (client : Option Text)

/-- The API gets the X-Forwarded-For line of the proxy. -/
theorem header_proxied :
    (proxied peer headers client).header "x-forwarded-for".toList=
      proxyAddXForwardedFor peer headers := by
  have hreal : (lower "X-Real-IP".toList == "x-forwarded-for".toList)=false := by decide +kernel
  have hforwarded : (lower "X-Forwarded-For".toList == "x-forwarded-for".toList)=true := by
    decide +kernel
  simp only [Request.header,proxied,setHeaders,List.cons_append,List.find?_cons,hreal,hforwarded,
    Option.map_some,Option.getD_some]

/-- That line is not empty. -/
theorem proxyAddXForwardedFor_ne_nil : proxyAddXForwardedFor peer headers≠[] :=
  List.append_ne_nil_of_right_ne_nil _ peer.nonempty

/-- The first element ends at the first comma. -/
theorem firstElement_append (line back : Text) :
    firstElement (line++ ','::back)=firstElement line := by
  have hcut : (line++ ','::back).takeWhile (· != ',')=line.takeWhile (· != ',') := by
    rw [List.takeWhile_append]
    split
    · rename_i hall
      have hline : line.takeWhile (· != ',')=line :=
        (List.takeWhile_prefix _).eq_of_length hall
      rw [List.takeWhile_cons_of_neg (by decide),List.append_nil,hline]
    · rfl
  rw [firstElement,firstElement,headD_splitOn,headD_splitOn,hcut]

/-- An address is an element of its own. -/
theorem firstElement_peer : firstElement peer.text=peer.text := by
  have hplain : ∀ c∈"0123456789abcdef.:".toList, (c != ',')=true ∧ isSpace c=false := by
    decide +kernel
  have hwhole : peer.text.takeWhile (· != ',')=peer.text :=
    List.takeWhile_eq_self_iff.mpr fun c hc => (hplain c (peer.chars c hc)).1
  rw [firstElement,headD_splitOn,hwhole]
  exact strip_eq_self fun c hc => (hplain c (peer.chars c hc)).2

/-- The first element behind the proxy is what the client claims. -/
theorem firstElement_proxied :
    firstElement (proxyAddXForwardedFor peer headers)=claimedAddress peer headers := by
  rw [proxyAddXForwardedFor,claimedAddress]
  cases forwardedLines headers with
  | nil => exact firstElement_peer peer
  | cons line lines =>
    rw [List.flatMap_cons,List.append_assoc,List.append_assoc]
    exact firstElement_append line _

/-- The rate limiter counts a request for the address that it claims. -/
theorem key_proxied : key (proxied peer headers client)=claimedAddress peer headers := by
  rw [key,header_proxied,if_neg (proxyAddXForwardedFor_ne_nil peer headers),firstElement_proxied]

/-- A report is recorded for the address that its request claims. -/
theorem clientIp_proxied :
    clientIp (proxied peer headers client)=claimedAddress peer headers := by
  rw [clientIp,header_proxied,if_neg (proxyAddXForwardedFor_ne_nil peer headers),
    firstElement_proxied]

/-- Two requests of one peer fall into one bucket and are recorded for one
address exactly when they claim the same address. -/
theorem key_clientIp_eq_iff (peer : PeerAddress) (first second : List Header)
    (firstClient secondClient : Option Text) :
    (key (proxied peer first firstClient)=key (proxied peer second secondClient) ∧
      clientIp (proxied peer first firstClient)=clientIp (proxied peer second secondClient)) ↔
    claimedAddress peer first=claimedAddress peer second := by
  rw [key_proxied,key_proxied,clientIp_proxied,clientIp_proxied,and_self]

section Example

/-- A peer. -/
private def onePeer : PeerAddress := ⟨"203.0.113.9".toList,by decide,by decide⟩

/-- The headers of a request that claims an address. -/
private def claiming (address : String) : List Header :=
  [⟨"X-Forwarded-For".toList,address.toList⟩]

/-- One peer gets two buckets and two recorded addresses. -/
theorem key_clientIp_forged :
    key (proxied onePeer (claiming "198.51.100.1") none)="198.51.100.1".toList ∧
    key (proxied onePeer (claiming "198.51.100.2") none)="198.51.100.2".toList ∧
    clientIp (proxied onePeer (claiming "198.51.100.1") none)="198.51.100.1".toList ∧
    clientIp (proxied onePeer (claiming "198.51.100.2") none)="198.51.100.2".toList := by
  decide +kernel

end Example

end ScamLens.ClientAddresses
