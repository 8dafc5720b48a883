import ScamLens.Upstream

/-!
# A message library for plain queries

A concrete parser and packer for DNS messages with one question, enough to
run the resolver on the queries of the examples. Names are read and written
uncompressed, answers point back at the question name.
-/

namespace ScamLens.PlainMessages

open PythonText Upstream

/-- Read the labels of a name up to its zero byte; the fuel bounds their number. -/
def readName : ℕ → Wire → Option (Text×Wire)
  | 0,_ => none
  | _,[] => none
  | fuel+1,length::rest =>
    if length=0 then some ([],rest)
    else if rest.length<length.toNat then none
    else match readName fuel (rest.drop length.toNat) with
      | none => none
      | some (name,tail) =>
        some ((rest.take length.toNat).map (fun b => Char.ofNat b.toNat)++ '.'::name,tail)

/-- Parse the header and the first question of a message. -/
def parseQuery : Wire → Option DNSRecord
  | i1::i0::f1::f0::_::q0::_::_::_::_::_::_::body =>
    if q0=0 then none
    else match readName body.length body with
      | some (name,t1::t0::_::_::_) => some {
          id := i1.toNat*256+i0.toNat
          qr := 128≤f1.toNat
          rcode := f0.toNat%16
          qname := name
          qtype := t1.toNat*256+t0.toNat
          rr := [] }
      | _ => none
  | _ => none

/-- Two bytes, most significant first. -/
def packShort (n : ℕ) : Wire := [UInt8.ofNat (n/256),UInt8.ofNat n]

/-- The labels of a name, each behind its length, up to a zero byte. -/
def packName (name : Text) : Wire :=
  (((rstripChar '.' name).splitOn '.').filter (·≠[])).flatMap
    (fun label => UInt8.ofNat label.length::label.map fun c => UInt8.ofNat c.toNat)++[0]

/-- The decimal value of a digit string. -/
def decimal (digits : Text) : ℕ := digits.foldl (fun n c => 10*n+(c.toNat-48)) 0

/-- One answer that points back at the question name. -/
def packAnswer (rr : RR) : Wire :=
  let rdata := (rr.rdata.splitOn '.').map fun part => UInt8.ofNat (decimal part)
  [0xC0,0x0C]++packShort rr.rtype++packShort 1++packShort (rr.ttl/65536)++packShort rr.ttl++
    packShort rdata.length++rdata

/-- Pack a record: header with the recursion flags, question, answers. -/
def packRecord (r : DNSRecord) : Wire :=
  packShort r.id++[if r.qr then 0x85 else 0x01,UInt8.ofNat ((if r.qr then 128 else 0)+r.rcode)]++
    packShort 1++packShort r.rr.length++packShort 0++packShort 0++
    packName r.qname++packShort r.qtype++packShort 1++r.rr.flatMap packAnswer

/-- The names that `DNSBuffer.encode_name` writes: 253 bytes at most, in labels
of 63 at most. -/
def encodable (name : Text) : Bool :=
  (rstripChar '.' name).length ≤ 253 &&
    ((rstripChar '.' name).splitOn '.').all fun label => label.length ≤ 63

/-- The library made of the two. -/
def plainDns : Dnslib where
  parse := parseQuery
  pack := fun r => if encodable r.qname then some (packRecord r) else none

/-- Every packed message starts with its header. -/
theorem plainDns_pack_ne_nil (r : DNSRecord) (wire : Wire) (h : plainDns.pack r=some wire) :
    wire≠[] := by
  obtain ⟨-,hwire⟩ := Option.ite_none_right_eq_some.mp h
  rw [←Option.some.inj hwire]
  simp only [packRecord,packShort,List.cons_append]
  exact List.cons_ne_nil _ _

/-- A parsed A query for a name. -/
def aQuestion (name : Text) : DNSRecord := ⟨0x1234,false,0,name++['.'],1,[]⟩

/-- The wire of an A query for a name. -/
def aQuery (name : Text) : Wire := packRecord (aQuestion name)

example : plainDns.parse (aQuery "a.bc".toList)=some (aQuestion "a.bc".toList) := by decide

end ScamLens.PlainMessages
