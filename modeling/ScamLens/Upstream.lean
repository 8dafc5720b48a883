import ScamLens.PythonText

/-!
# DNS messages and the upstream resolver

The message library is a parameter: it parses wires to records and packs
records to wires. The upstream resolver asks two servers in order, each over
UDP and, for a truncated answer, over TCP; every attempt may time out, fail or
deliver any bytes. The abstract view at the end says which answer the two
servers gave between them.
-/

namespace ScamLens.Upstream

open PythonText

/-- A DNS message as the bytes on the wire. -/
abbrev Wire := List UInt8

/-- A resource record of an answer section. -/
structure RR where
  /-- Owner name. -/
  rname : Text
  /-- Numeric type. -/
  rtype : ℕ
  /-- Seconds the record may be cached. -/
  ttl : ℕ
  /-- Record data as text. -/
  rdata : Text
  deriving DecidableEq

/-- A DNS message as the message library represents it: header, the first
question, and the answer section. -/
structure DNSRecord where
  /-- Sixteen-bit message id. -/
  id : ℕ
  /-- Response flag. -/
  qr : Bool
  /-- Response code. -/
  rcode : ℕ
  /-- Question name as text, with its trailing dot. -/
  qname : Text
  /-- Numeric question type. -/
  qtype : ℕ
  /-- Answer section. -/
  rr : List RR
  deriving DecidableEq

/-- The message library: a parser and a packer, both of which may raise. The
packer refuses names that the parser accepts. -/
structure Dnslib where
  /-- `DNSRecord.parse`, none when it raises. -/
  parse : Wire → Option DNSRecord
  /-- `DNSRecord.pack`, none when it raises. -/
  pack : DNSRecord → Option Wire

/-- `request.reply()`: the same id and question, no answers, no error. -/
def DNSRecord.reply (request : DNSRecord) : DNSRecord :=
  {request with qr := true, rcode := 0, rr := []}

/-- `RCODE.SERVFAIL`. -/
def servfailCode : ℕ := 2

/-- `RCODE.NXDOMAIN`. -/
def nxdomainCode : ℕ := 3

/-- The question types the resolver distinguishes. -/
inductive QType where
  | a
  | aaaa
  | https
  | other
  deriving DecidableEq

/-- `QTYPE[n]`, up to the types that no code path compares with. -/
def qtypeOf (n : ℕ) : QType :=
  if n=1 then .a else if n=28 then .aaaa else if n=65 then .https else .other

/-- Outcome of one attempt at one server. -/
inductive Recv where
  | timeout
  | error
  | data (answer : Wire)
  deriving DecidableEq

/-- What the two attempts at one server deliver. -/
structure Exchange where
  /-- Outcome of the UDP query. -/
  udp : Recv
  /-- Outcome of the TCP query, asked only after a truncated UDP answer. -/
  tcp : Recv

/-- The two configured servers. -/
inductive Server where
  | primary
  | fallback
  deriving DecidableEq

/-- `_is_truncated`: the TC flag of the header. -/
def isTruncated : Wire → Bool
  | _::_::b2::b3::_ => ((b2.toNat <<< 8) ||| b3.toNat) &&& 0x0200≠0
  | _ => false

/-- The loop of `UpstreamResolver.query` over the servers still to ask. -/
def queryServers (net : Server → Exchange) : List Server → Option Wire
  | [] => none
  | server::servers =>
    match (net server).udp with
    | .data answer =>
      if answer≠[] ∧ isTruncated answer then
        match (net server).tcp with
        -- The TCP answer is returned as it is, whatever its length.
        | .data full => some full
        | _ => queryServers net servers
      else if answer≠[] then some answer
      else queryServers net servers
    | _ => queryServers net servers

/-- `UpstreamResolver.query`. -/
def query (net : Server → Exchange) : Option Wire := queryServers net [.primary,.fallback]

/-- The complete, nonempty answer one server gave, if it gave one. -/
def Exchange.answer (x : Exchange) : Option Wire :=
  match x.udp with
  | .data answer =>
    if isTruncated answer then
      match x.tcp with
      | .data full => if full=[] then none else some full
      | _ => none
    else if answer=[] then none else some answer
  | _ => none

/-- The server truncated its UDP answer and then sent an empty TCP message. -/
def Exchange.EmptyTcp (x : Exchange) : Prop :=
  ∃ answer, x.udp=.data answer ∧ isTruncated answer=true ∧ x.tcp=.data []

/-- The answer the two servers gave between them, the primary preferred. -/
def upstreamAnswer (net : Server → Exchange) : Option Wire :=
  (net .primary).answer.or (net .fallback).answer

/-- The first server that completes an exchange completes it with an empty
TCP message. -/
def HitsEmptyTcp (net : Server → Exchange) : Prop :=
  (net .primary).EmptyTcp ∨ ((net .primary).answer=none ∧ (net .fallback).EmptyTcp)

/-- A truncated message has at least a flags field. -/
theorem ne_nil_of_isTruncated {wire : Wire} (h : isTruncated wire=true) : wire≠[] := by
  rintro rfl
  exact Bool.false_ne_true h

/-- An answer that a server gave is not empty. -/
theorem answer_ne_nil {x : Exchange} {wire : Wire} (h : x.answer=some wire) : wire≠[] := by
  unfold Exchange.answer at h
  split at h
  · split at h
    · split at h
      · split_ifs at h with hf
        exact (Option.some.inj h) ▸ hf
      · cases h
    · split_ifs at h with ha
      exact (Option.some.inj h) ▸ ha
  · cases h

/-- One server's turn in the loop: an empty TCP message ends the query with
empty bytes, and otherwise the loop takes the server's answer or goes on. -/
theorem queryServers_cons (net : Server → Exchange) (server : Server) (servers : List Server) :
    ((net server).EmptyTcp → queryServers net (server::servers)=some []) ∧
      (¬(net server).EmptyTcp → queryServers net (server::servers)=
        ((net server).answer).or (queryServers net servers)) := by
  unfold Exchange.EmptyTcp Exchange.answer
  rw [queryServers]
  cases hu : (net server).udp with
  | timeout => simp only [reduceCtorEq,false_and,exists_false,false_implies,Option.none_or,
      not_false_eq_true,implies_true,and_self]
  | error => simp only [reduceCtorEq,false_and,exists_false,false_implies,Option.none_or,
      not_false_eq_true,implies_true,and_self]
  | data answer =>
    by_cases ht : isTruncated answer=true
    · have hne := ne_nil_of_isTruncated ht
      cases hc : (net server).tcp with
      | timeout => simp [ht,hne]
      | error => simp [ht,hne]
      | data full => by_cases hf : full=[] <;> simp [ht,hne,hf]
    · by_cases he : answer=[]
      · subst he
        simp [isTruncated]
      · simp [ht,he]

/-- The query returns empty bytes exactly where the exchange that ends it is
an empty TCP message. -/
theorem query_of_hitsEmptyTcp {net : Server → Exchange} (h : HitsEmptyTcp net) :
    query net=some [] := by
  rcases h with hp|⟨hn,hf⟩
  · exact (queryServers_cons net .primary _).1 hp
  · by_cases hp : (net .primary).EmptyTcp
    · exact (queryServers_cons net .primary _).1 hp
    · rw [query,(queryServers_cons net .primary _).2 hp,hn,
        (queryServers_cons net .fallback _).1 hf]
      rfl

/-- Elsewhere the query returns the answer the two servers gave. -/
theorem query_of_not_hitsEmptyTcp {net : Server → Exchange} (h : ¬HitsEmptyTcp net) :
    query net=upstreamAnswer net := by
  have hp : ¬(net .primary).EmptyTcp := fun hp => h (Or.inl hp)
  rw [query,(queryServers_cons net .primary _).2 hp,upstreamAnswer]
  cases ha : (net .primary).answer with
  | some answer => rfl
  | none =>
    have hf : ¬(net .fallback).EmptyTcp := fun hf => h (Or.inr ⟨ha,hf⟩)
    rw [(queryServers_cons net .fallback _).2 hf]
    cases (net .fallback).answer <;> rfl

/-- An answer the two servers gave is not empty. -/
theorem upstreamAnswer_ne_nil {net : Server → Exchange} {wire : Wire}
    (h : upstreamAnswer net=some wire) : wire≠[] := by
  rcases Option.or_eq_some_iff.mp h with hp|⟨-,hf⟩
  · exact answer_ne_nil hp
  · exact answer_ne_nil hf

end ScamLens.Upstream
