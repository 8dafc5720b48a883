import Mathlib.Data.List.Count
import Mathlib.Data.Nat.Notation

/-!
# Reading base 64 with padding

The lenient decoder keeps the place in a quad of digits and what is left of the
last digit; it passes over everything that is no digit and stops at the padding
that completes a quad. It reads back what the encoder writes, and a text is
refused for the number of its digits and the padding behind them alone.
-/

namespace ScamLens.Base64Texts

/-- The six-bit groups of some bytes, the last one filled up with zeros. -/
def sextets : List UInt8 → List ℕ
  | a::b::c::rest =>
    [a.toNat/4,a.toNat%4*16+b.toNat/16,b.toNat%16*4+c.toNat/64,c.toNat%64]++sextets rest
  | [a,b] => [a.toNat/4,a.toNat%4*16+b.toNat/16,b.toNat%16*4]
  | [a] => [a.toNat/4,a.toNat%4*16]
  | [] => []

/-- The number of padding signs that completes so many digits to quads. -/
def padding (n : ℕ) : ℕ := (4-n%4)%4

/-- The place in a quad, with the bits left of the last digit. -/
inductive Quad where
  /-- No digit of the quad is read. -/
  | empty
  /-- One digit, and its six bits. -/
  | one (left : ℕ)
  /-- Two digits, and four bits of the second. -/
  | two (left : ℕ)
  /-- Three digits, and two bits of the third. -/
  | three (left : ℕ)

/-- `quad_pos` -/
def Quad.pos : Quad → ℕ
  | .empty => 0
  | .one _ => 1
  | .two _ => 2
  | .three _ => 3

/-- The quad behind another digit, and the byte that the digit completes. -/
def Quad.push (v : ℕ) : Quad → Quad×List UInt8
  | .empty => (.one v,[])
  | .one left => (.two (v%16),[UInt8.ofNat (left*4+v/16)])
  | .two left => (.three (v%4),[UInt8.ofNat (left*16+v/4)])
  | .three left => (.empty,[UInt8.ofNat (left*64+v)])

/-- The loop of `binascii.a2b_base64` that is not strict: none for an incomplete
quad at the end. -/
def a2bFrom (value : Char → Option ℕ) : Quad → ℕ → List Char → Option (List UInt8)
  | quad,_,[] => if quad.pos=0 then some [] else none
  | quad,pads,c::text =>
    if c = '=' then
      if 2 ≤ quad.pos then
        if 4 ≤ quad.pos+(pads+1) then some [] else a2bFrom value quad (pads+1) text
      else a2bFrom value quad pads text
    else match value c with
      | none => a2bFrom value quad pads text
      | some v => (a2bFrom value (quad.push v).1 0 text).map ((quad.push v).2++·)

/-- `binascii.a2b_base64` -/
def a2bBase64 (value : Char → Option ℕ) (text : List Char) : Option (List UInt8) :=
  a2bFrom value .empty 0 text

variable {value : Char → Option ℕ}

/-- Two digits in a row make up a byte again. -/
theorem ofNat_joined (a : UInt8) (k : ℕ) : UInt8.ofNat (a.toNat/k*k+a.toNat%k)=a := by
  rw [Nat.div_add_mod' a.toNat k,UInt8.ofNat_toNat]

section RoundTrip

/-- The digits are read as the numbers that they stand for. -/
def Digits (value : Char → Option ℕ) (digit : ℕ → Char) : Prop :=
  ∀ n<64, digit n≠ '=' ∧ value (digit n)=some n

variable {digit : ℕ → Char}

/-- A digit moves the quad on. -/
theorem a2bFrom_digit (h : Digits value digit) {n : ℕ} (hn : n<64) (quad : Quad) (pads : ℕ)
    (text : List Char) : a2bFrom value quad pads (digit n::text)=
      (a2bFrom value (quad.push n).1 0 text).map ((quad.push n).2++·) := by
  rw [a2bFrom,if_neg (h n hn).1,(h n hn).2]

/-- Bytes are read from their digits with the padding behind them. -/
theorem a2bFrom_sextets (h : Digits value digit) (bytes : List UInt8) (pads : ℕ) :
    a2bFrom value .empty pads
      ((sextets bytes).map digit++List.replicate (padding (sextets bytes).length) '=')=
        some bytes := by
  induction bytes using sextets.induct generalizing pads with
  | case1 a b c rest ih =>
    have ha := a.toNat_lt
    have hb := b.toNat_lt
    have hc := c.toNat_lt
    have hsextets : sextets (a::b::c::rest)=a.toNat/4::(a.toNat%4*16+b.toNat/16)::
        (b.toNat%16*4+c.toNat/64)::c.toNat%64::sextets rest := rfl
    have hpadding : padding (sextets (a::b::c::rest)).length=padding (sextets rest).length := by
      rw [hsextets]
      simp only [padding,List.length_cons]
      omega
    have hfirst : UInt8.ofNat (a.toNat/4*4+(a.toNat%4*16+b.toNat/16)/16)=a := by
      have hdiv : (a.toNat%4*16+b.toNat/16)/16=a.toNat%4 := by omega
      rw [hdiv,ofNat_joined a]
    have hsecond : UInt8.ofNat ((a.toNat%4*16+b.toNat/16)%16*16+
        (b.toNat%16*4+c.toNat/64)/4)=b := by
      have hmod : (a.toNat%4*16+b.toNat/16)%16=b.toNat/16 := by omega
      have hdiv : (b.toNat%16*4+c.toNat/64)/4=b.toNat%16 := by omega
      rw [hmod,hdiv,ofNat_joined b]
    have hthird : UInt8.ofNat ((b.toNat%16*4+c.toNat/64)%4*64+c.toNat%64)=c := by
      have hmod : (b.toNat%16*4+c.toNat/64)%4=c.toNat/64 := by omega
      rw [hmod,ofNat_joined c]
    rw [hpadding,hsextets]
    simp only [List.map_cons,List.cons_append]
    rw [a2bFrom_digit h (by omega),a2bFrom_digit h (by omega),a2bFrom_digit h (by omega),
      a2bFrom_digit h (by omega)]
    simp only [Quad.push,ih,Option.map_some,hfirst,hsecond,hthird,List.nil_append,
      List.cons_append]
  | case2 a b =>
    have ha := a.toNat_lt
    have hb := b.toNat_lt
    have hfirst : UInt8.ofNat (a.toNat/4*4+(a.toNat%4*16+b.toNat/16)/16)=a := by
      have hdiv : (a.toNat%4*16+b.toNat/16)/16=a.toNat%4 := by omega
      rw [hdiv,ofNat_joined a]
    have hsecond : UInt8.ofNat ((a.toNat%4*16+b.toNat/16)%16*16+b.toNat%16*4/4)=b := by
      have hmod : (a.toNat%4*16+b.toNat/16)%16=b.toNat/16 := by omega
      rw [hmod,Nat.mul_div_cancel _ (by decide),ofNat_joined b]
    have hends : a2bFrom value (.three (b.toNat%16*4%4)) 0 ['=']=some [] := rfl
    change a2bFrom value .empty pads (digit _::digit _::digit _::['='])=_
    rw [a2bFrom_digit h (by omega),a2bFrom_digit h (by omega),a2bFrom_digit h (by omega)]
    simp only [Quad.push,hends,Option.map_some,hfirst,hsecond,List.nil_append,List.cons_append]
  | case3 a =>
    have ha := a.toNat_lt
    have hfirst : UInt8.ofNat (a.toNat/4*4+a.toNat%4*16/16)=a := by
      rw [Nat.mul_div_cancel _ (by decide),ofNat_joined a]
    have hends : a2bFrom value (.two (a.toNat%4*16%16)) 0 ['=','=']=some [] := rfl
    change a2bFrom value .empty pads (digit _::digit _::['=','='])=_
    rw [a2bFrom_digit h (by omega),a2bFrom_digit h (by omega)]
    simp only [Quad.push,hends,Option.map_some,hfirst,List.nil_append,List.cons_append]
  | case4 => rfl

end RoundTrip

section Values

/-- The bytes of six-bit groups; the bits that are left over are dropped. -/
def bytesOf : List ℕ → List UInt8
  | a::b::c::d::rest =>
    [UInt8.ofNat (a*4+b/16),UInt8.ofNat (b%16*16+c/4),UInt8.ofNat (c%4*64+d)]++bytesOf rest
  | [a,b,c] => [UInt8.ofNat (a*4+b/16),UInt8.ofNat (b%16*16+c/4)]
  | [a,b] => [UInt8.ofNat (a*4+b/16)]
  | _ => []

/-- A character with a value moves the quad on. -/
theorem a2bFrom_value {c : Char} {v : ℕ} (hplain : c≠ '=') (hvalue : value c=some v) (quad : Quad)
    (pads : ℕ) (text : List Char) : a2bFrom value quad pads (c::text)=
      (a2bFrom value (quad.push v).1 0 text).map ((quad.push v).2++·) := by
  rw [a2bFrom,if_neg hplain,hvalue]

/-- Digits with the padding behind them are read four by four, and refused when
one is over. -/
theorem a2bFrom_digits (digits : List (Char×ℕ))
    (h : ∀ digit∈digits, digit.1≠ '=' ∧ value digit.1=some digit.2) (pads : ℕ) :
    a2bFrom value .empty pads
      (digits.map Prod.fst++List.replicate (padding digits.length) '=')=
        if digits.length%4=1 then none else some (bytesOf (digits.map Prod.snd)) := by
  match digits with
  | [] => rfl
  | [a] =>
    obtain ⟨hplain,hvalue⟩ := h a List.mem_cons_self
    have hends : a2bFrom value (.one a.2) 0 ['=','=','=']=none := rfl
    change a2bFrom value .empty pads (a.1::['=','=','='])=_
    rw [a2bFrom_value hplain hvalue]
    simp only [Quad.push,hends,Option.map_none]
    rfl
  | [a,b] =>
    simp only [List.forall_mem_cons] at h
    obtain ⟨ha,hb,-⟩ := h
    have hends : a2bFrom value (.two (b.2%16)) 0 ['=','=']=some [] := rfl
    change a2bFrom value .empty pads (a.1::b.1::['=','='])=_
    rw [a2bFrom_value ha.1 ha.2,a2bFrom_value hb.1 hb.2]
    simp only [Quad.push,hends,Option.map_some]
    rfl
  | [a,b,c] =>
    simp only [List.forall_mem_cons] at h
    obtain ⟨ha,hb,hc,-⟩ := h
    have hends : a2bFrom value (.three (c.2%4)) 0 ['=']=some [] := rfl
    change a2bFrom value .empty pads (a.1::b.1::c.1::['='])=_
    rw [a2bFrom_value ha.1 ha.2,a2bFrom_value hb.1 hb.2,a2bFrom_value hc.1 hc.2]
    simp only [Quad.push,hends,Option.map_some]
    rfl
  | a::b::c::d::rest =>
    simp only [List.forall_mem_cons] at h
    obtain ⟨ha,hb,hc,hd,hrest⟩ := h
    have hlength : (a::b::c::d::rest).length=rest.length+4 := rfl
    have hpadding : padding (rest.length+4)=padding rest.length := by
      rw [padding,padding,Nat.add_mod_right]
    rw [hlength,hpadding,Nat.add_mod_right]
    simp only [List.map_cons,List.cons_append]
    rw [a2bFrom_value ha.1 ha.2,a2bFrom_value hb.1 hb.2,a2bFrom_value hc.1 hc.2,
      a2bFrom_value hd.1 hd.2]
    simp only [Quad.push,a2bFrom_digits rest hrest 0]
    split
    · rfl
    · simp only [Option.map_some,bytesOf,List.nil_append,List.cons_append]
termination_by digits.length

end Values

end ScamLens.Base64Texts
