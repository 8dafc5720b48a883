import ScamLens.JsonTexts

/-!
# JSON texts as Python writes them, and reads again

`json.dumps` with its defaults: a comma and a colon are followed by a blank,
and a string is ASCII, its other code points being escaped, in pairs behind
the first plane. What is written without floats is read again as the value it
was written for, whatever stands behind it; no line of it ever ends.
-/

namespace ScamLens.JsonDumps

open JsonTexts PythonText
open Typosquat (dictSet)

section Encoder

/-- The escape of one code unit. -/
def unitEscape (unit : ℕ) : Text := '\\':: 'u'::hexDigits 4 unit

/-- One code point between quotes, with `ensure_ascii`. -/
def escapeChar (c : Char) : Text :=
  let n := c.toNat
  if c = '\x22' then ['\\','\x22']
  else if c = '\\' then ['\\','\\']
  else if c = '\n' then ['\\','n']
  else if c = '\r' then ['\\','r']
  else if c = '\t' then ['\\','t']
  else if c = '\x0c' then ['\\','f']
  else if c = '\x08' then ['\\','b']
  else if 32 ≤ n && n≤126 then [c]
  else if n<0x10000 then unitEscape n
  else unitEscape (0xD800+(n-0x10000)/0x400)++unitEscape (0xDC00+(n-0x10000)%0x400)

/-- A string with its quotes. -/
def encodeString (s : Text) : Text := '\x22'::(s.flatMap escapeChar++['\x22'])

/-- An integer; the interpreter refuses to write one with too many digits. -/
def encodeInt (n : ℤ) : Option Text :=
  if maxDigits<(Nat.toDigits 10 n.natAbs).length then none else some (ofInt n)

variable (float : PyFloat → Text)

mutual

/-- A value, given how deep arrays and objects may still be nested. -/
def encode (depth : ℕ) : JsonValue → Option Text
  | .null => some "null".toList
  | .bool b => some (if b then "true".toList else "false".toList)
  | .int n => encodeInt n
  | .float x => some (float x)
  | .string s => some (encodeString s)
  | .array items =>
    match depth with
    | 0 => none
    | depth+1 => (encodeItems depth items).map fun parts => '['::(join ", ".toList parts++[']'])
  | .object fields =>
    match depth with
    | 0 => none
    | depth+1 =>
      (encodeFields depth fields).map fun parts => '\x7b'::(join ", ".toList parts++['\x7d'])

/-- Every item of an array. -/
def encodeItems (depth : ℕ) : List JsonValue → Option (List Text)
  | [] => some []
  | item::items =>
    (encode depth item).bind fun part => (encodeItems depth items).map (part::·)

/-- Every field of an object. -/
def encodeFields (depth : ℕ) : List (Text×JsonValue) → Option (List Text)
  | [] => some []
  | (key,value)::fields =>
    (encode depth value).bind fun part =>
      (encodeFields depth fields).map ((encodeString key++": ".toList++part)::·)

end

/-- `json.dumps`, given how deep a value may be nested; none for an exception. -/
def dumps (depth : ℕ) (value : JsonValue) : Option Text := encode float depth value

end Encoder

section Plain

mutual

/-- No floats, and no key of an object twice. -/
def JsonPlain : JsonValue → Prop
  | .null => True
  | .bool _ => True
  | .int _ => True
  | .float _ => False
  | .string _ => True
  | .array items => ItemsPlain items
  | .object fields => (fields.map Prod.fst).Nodup ∧ FieldsPlain fields

/-- The same for all items. -/
def ItemsPlain : List JsonValue → Prop
  | [] => True
  | item::items => JsonPlain item ∧ ItemsPlain items

/-- The same for the values of all fields. -/
def FieldsPlain : List (Text×JsonValue) → Prop
  | [] => True
  | (_,value)::fields => JsonPlain value ∧ FieldsPlain fields

end

end Plain

section Strings

/-- The code units of one code point. -/
def charUnits (c : Char) : List ℕ :=
  let n := c.toNat
  if n<0x10000 then [n] else [0xD800+(n-0x10000)/0x400,0xDC00+(n-0x10000)%0x400]

/-- A digit of base sixteen is read as its value. -/
theorem hexValue_digitChar {d : ℕ} (h : d<16) : hexValue (Nat.digitChar d)=some d := by
  have all : ∀ d<16, hexValue (Nat.digitChar d)=some d := by decide
  exact all d h

/-- Four hexadecimal digits, one by one. -/
theorem hexDigits_four (n : ℕ) :
    hexDigits 4 n=[Nat.digitChar (n/4096%16),Nat.digitChar (n/256%16),Nat.digitChar (n/16%16),
      Nat.digitChar (n%16)] := by
  have hn : n/1=n := Nat.div_one n
  simp [hexDigits,List.range_succ,hn]

/-- The four digits of a code unit are read as the unit. -/
theorem hex4_digits {n : ℕ} (h : n<0x10000) :
    hex4 (Nat.digitChar (n/4096%16)) (Nat.digitChar (n/256%16)) (Nat.digitChar (n/16%16))
      (Nat.digitChar (n%16))=some n := by
  have hvalue : ((n/4096%16*16+n/256%16)*16+n/16%16)*16+n%16=n := by omega
  simp only [hex4,hexValue_digitChar (Nat.mod_lt _ (by decide : 0<16)),Option.bind_eq_bind,
    Option.bind_some]
  exact congrArg some hvalue

/-- An escaped code unit is read as the unit, whatever stands behind it. -/
theorem stringUnits_unitEscape {n : ℕ} (h : n<0x10000) (rest : Text) :
    stringUnits (unitEscape n++rest)=
      (stringUnits rest).map fun out => (n::out.1,out.2) := by
  rw [unitEscape,hexDigits_four]
  change (hex4 _ _ _ _).elim _ _=_
  rw [hex4_digits h]
  rfl

/-- A short escape is read as the code unit that it stands for. -/
theorem stringUnits_shortEscape {c : Char} {n : ℕ} (hu : c≠ 'u') (h : shortEscape c=some n)
    (rest : Text) :
    stringUnits ('\\'::c::rest)=(stringUnits rest).map fun out => (n::out.1,out.2) := by
  rw [stringUnits,h]
  · rfl
  · intro a b c' d s hs
    exact absurd hs hu

/-- A printable code point other than a quote and a backslash is read as it is. -/
theorem stringUnits_printable {c : Char} (hq : c≠ '\x22') (hb : c≠ '\\') (h : 32 ≤ c.toNat)
    (rest : Text) :
    stringUnits (c::rest)=(stringUnits rest).map fun out => (c.toNat::out.1,out.2) := by
  rw [stringUnits]
  · rw [if_neg hq,if_neg (Nat.not_lt.mpr h)]
  · rintro a b c' d s rfl -
    exact hb rfl
  · rintro a s rfl -
    exact hb rfl

/-- A code point is below the end of the last plane. -/
theorem toNat_lt (c : Char) : c.toNat<0x110000 := by
  rcases c.valid with h | h
  · exact lt_trans h (by decide)
  · exact h.2

/-- An escaped code point is read as its code units. -/
theorem stringUnits_escapeChar (c : Char) (rest : Text) :
    stringUnits (escapeChar c++rest)=
      (stringUnits rest).map fun out => (charUnits c++out.1,out.2) := by
  by_cases hq : c= '\x22'
  · subst hq
    exact stringUnits_shortEscape (by decide) rfl rest
  by_cases hb : c= '\\'
  · subst hb
    exact stringUnits_shortEscape (by decide) rfl rest
  by_cases hn : c= '\n'
  · subst hn
    exact stringUnits_shortEscape (by decide) rfl rest
  by_cases hr : c= '\r'
  · subst hr
    exact stringUnits_shortEscape (by decide) rfl rest
  by_cases ht : c= '\t'
  · subst ht
    exact stringUnits_shortEscape (by decide) rfl rest
  by_cases hf : c= '\x0c'
  · subst hf
    exact stringUnits_shortEscape (by decide) rfl rest
  by_cases hback : c= '\x08'
  · subst hback
    exact stringUnits_shortEscape (by decide) rfl rest
  rw [escapeChar,charUnits]
  simp only [hq,hb,hn,hr,ht,hf,hback,if_false]
  by_cases hp : 32 ≤ c.toNat ∧ c.toNat≤126
  · rw [if_pos (by simpa using hp),if_pos (by omega)]
    exact stringUnits_printable hq hb hp.1 rest
  rw [if_neg (by simpa using hp)]
  by_cases hplane : c.toNat<0x10000
  · rw [if_pos hplane,if_pos hplane]
    exact stringUnits_unitEscape hplane rest
  · have hlt := toNat_lt c
    rw [if_neg hplane,if_neg hplane,List.append_assoc,stringUnits_unitEscape (by omega),
      stringUnits_unitEscape (by omega)]
    cases stringUnits rest <;> rfl

/-- A written string is read as its code units. -/
theorem stringUnits_flatMap (s rest : Text) :
    stringUnits (s.flatMap escapeChar++ '\x22'::rest)=.ok (s.flatMap charUnits,rest) := by
  induction s with
  | nil =>
    rw [List.flatMap_nil,List.nil_append,stringUnits,if_pos rfl]
    · rfl
    · rintro a b c' d s hc -
      exact absurd hc (by decide)
    · rintro a s hc -
      exact absurd hc (by decide)
  | cons c s ih =>
    rw [List.flatMap_cons,List.append_assoc,stringUnits_escapeChar,ih]
    rfl

/-- A code unit that starts no pair is a code point of its own. -/
theorem joinSurrogates_cons {unit : ℕ} (h : ¬(0xD800 ≤ unit ∧ unit≤0xDBFF)) (units : List ℕ) :
    joinSurrogates (unit::units)=
      (if unit.isValidChar then Char.ofNat unit else '\uFFFD')::joinSurrogates units := by
  cases units with
  | nil => rfl
  | cons low units =>
    rw [joinSurrogates,if_neg]
    simp only [Bool.and_eq_true,decide_eq_true_eq]
    exact fun hc => h ⟨hc.1.1.1,hc.1.1.2⟩

/-- The code units of a code point make that code point again. -/
theorem joinSurrogates_charUnits (c : Char) (units : List ℕ) :
    joinSurrogates (charUnits c++units)=c::joinSurrogates units := by
  have hvalid : c.toNat.isValidChar := c.valid
  rw [charUnits]
  by_cases hplane : c.toNat<0x10000
  · simp only [hplane,if_true,List.singleton_append]
    rw [joinSurrogates_cons,if_pos hvalid,Char.ofNat_toNat]
    rcases hvalid with h | h <;> omega
  · have hlt := toNat_lt c
    have hvalue : 0x10000+(0xD800+(c.toNat-0x10000)/0x400-0xD800)*0x400+
        (0xDC00+(c.toNat-0x10000)%0x400-0xDC00)=c.toNat := by omega
    simp only [hplane,if_false,List.cons_append,List.nil_append]
    rw [joinSurrogates,if_pos,hvalue,Char.ofNat_toNat]
    simp only [Bool.and_eq_true,decide_eq_true_eq]
    omega

/-- The code units of a string make that string again. -/
theorem joinSurrogates_flatMap (s : Text) : joinSurrogates (s.flatMap charUnits)=s := by
  induction s with
  | nil => rfl
  | cons c s ih => rw [List.flatMap_cons,joinSurrogates_charUnits,ih]

/-- A written string is read again behind its first quote. -/
theorem scanString_encode (s rest : Text) :
    scanString (s.flatMap escapeChar++ '\x22'::rest)=.ok (s,rest) := by
  rw [scanString,stringUnits_flatMap]
  exact congrArg (fun t => Except.ok (t,rest)) (joinSurrogates_flatMap s)

end Strings

section Numbers

/-- The text behind a number takes nothing into the number. -/
def NumberEnds (rest : Text) : Prop :=
  ∀ c∈rest.head?, c.isDigit=false ∧ c≠ '.' ∧ c≠ 'e' ∧ c≠ 'E'

/-- A decimal digit has the value that its code point tells. -/
theorem digitValue_isDigit {c : Char} (h : c.isDigit=true) :
    digitValue c=some (c.toNat- '0'.toNat) := by
  have hc : 48 ≤ c.toNat ∧ c.toNat≤57 := Char.isDigit_iff_toNat.mp h
  have hfirst : (0x30 ≤ c.toNat && decide (c.toNat<0x30+10))=true := by
    simp only [Bool.and_eq_true,decide_eq_true_eq]
    omega
  have hzero : decimalZeros.find? (fun first => first ≤ c.toNat && c.toNat<first+10)=some 0x30 := by
    rw [show decimalZeros=0x30::decimalZeros.tail from rfl]
    exact List.find?_cons_of_pos hfirst
  rw [digitValue,hzero]
  rfl

/-- The values of decimal digits, added up, are the number that they write. -/
theorem ofDigits_filterMap {digits : Text} (h : ∀ c∈digits, c.isDigit=true) :
    ofDigits (digits.filterMap digitValue)=Nat.ofDigitChars 10 digits 0 := by
  have hvalues : digits.filterMap digitValue=digits.map fun c => c.toNat- '0'.toNat := by
    rw [←List.filterMap_eq_map]
    exact List.filterMap_congr fun c hc => digitValue_isDigit (h c hc)
  rw [hvalues,ofDigits,List.foldl_map]
  rfl

/-- Digits end where the text behind them has none. -/
theorem spanDigits_append {digits rest : Text} (h : ∀ c∈digits, c.isDigit=true)
    (hrest : NumberEnds rest) : spanDigits (digits++rest)=(digits,rest) := by
  have hhead : rest.takeWhile Char.isDigit=[] ∧ rest.dropWhile Char.isDigit=rest := by
    cases rest with
    | nil => exact ⟨rfl,rfl⟩
    | cons c rest =>
      have hc : ¬c.isDigit=true := Bool.eq_false_iff.mp (hrest c rfl).1
      exact ⟨List.takeWhile_cons_of_neg hc,List.dropWhile_cons_of_neg hc⟩
  rw [spanDigits,List.span_eq_takeWhile_dropWhile,List.takeWhile_append_of_pos h,
    List.dropWhile_append_of_pos h,hhead.1,hhead.2,List.append_nil]

/-- The first digit of a positive number is no zero. -/
theorem head_toDigits {n : ℕ} (hn : 0<n) : (Nat.toDigits 10 n).head?≠some '0' := by
  induction n using Nat.strongRecOn with
  | ind n ih =>
    by_cases h : n<10
    · rw [Nat.toDigits_of_lt_base h]
      have all : ∀ d<10, 0<d → [Nat.digitChar d].head?≠some '0' := by decide
      exact all n h hn
    · have hfront := ih (n/10) (by omega) (by omega)
      rw [Nat.toDigits_of_base_le (by decide) (by omega),
        List.head?_append_of_ne_nil _ Nat.toDigits_ne_nil]
      exact hfront

/-- A text that no digit takes further has no fraction and no exponent. -/
theorem scan_numberEnds {rest : Text} (h : NumberEnds rest) :
    scanFraction rest=none ∧ scanExponent rest=none := by
  cases rest with
  | nil => exact ⟨rfl,rfl⟩
  | cons c rest =>
    obtain ⟨-,hdot,he,hE⟩ := h c rfl
    constructor
    · rw [scanFraction]
      rintro s hs
      exact hdot (List.cons.inj hs).1
    · rw [scanExponent,if_neg]
      simpa using ⟨he,hE⟩

/-- Written digits are read as their number. -/
theorem scanNumber_toDigits (negative : Bool) {n : ℕ} {rest : Text}
    (hlen : (Nat.toDigits 10 n).length ≤ maxDigits) (hrest : NumberEnds rest) :
    scanNumber negative (Nat.toDigits 10 n++rest)=
      .ok (.int (if negative then -(n : ℤ) else n),rest) := by
  have hall : ∀ c∈Nat.toDigits 10 n, c.isDigit=true :=
    fun c hc => Nat.isDigit_of_mem_toDigits (by decide) (by decide) hc
  have hwhole : (if (Nat.toDigits 10 n++rest).head?=some '0' then ['0']
      else (spanDigits (Nat.toDigits 10 n++rest)).1)=Nat.toDigits 10 n := by
    rw [spanDigits_append hall hrest]
    rcases Nat.eq_zero_or_pos n with rfl | hn
    · rfl
    · rw [List.head?_append_of_ne_nil _ Nat.toDigits_ne_nil,if_neg (head_toDigits hn)]
  have hvalue : ofDigits ((Nat.toDigits 10 n).filterMap digitValue)=n := by
    rw [ofDigits_filterMap hall,Nat.ofDigitChars_ten_toDigits]
  obtain ⟨hfraction,hexponent⟩ := scan_numberEnds hrest
  simp only [scanNumber,hwhole,List.drop_left,hfraction,hexponent,Option.elim_none,
    Option.isNone_none,Bool.and_true,if_true,hvalue]
  rw [if_neg Nat.toDigits_ne_nil,if_neg (Nat.not_lt.mpr hlen)]

/-- A text that starts with a digit is a number to the scanner. -/
theorem scanAtom_digit {c : Char} (h : c.isDigit=true) (s : Text) :
    scanAtom (c::s)=scanNumber false (c::s) := by
  have hne : c≠ 'n' ∧ c≠ 't' ∧ c≠ 'f' ∧ c≠ 'N' ∧ c≠ 'I' ∧ c≠ '-' := by
    refine ⟨?_,?_,?_,?_,?_,?_⟩ <;> (rintro rfl; exact absurd h (by decide))
  obtain ⟨hn,ht,hf,hN,hI,hm⟩ := hne
  simp [scanAtom,List.isPrefixOf,Ne.symm hn,Ne.symm ht,Ne.symm hf,Ne.symm hN,Ne.symm hI,hm,
    Ne.symm hm]

/-- A sign before a digit is the sign of a number. -/
theorem scanAtom_minus {c : Char} (h : c.isDigit=true) (s : Text) :
    scanAtom ('-'::c::s)=scanNumber true (c::s) := by
  have hI : c≠ 'I' := by
    rintro rfl
    exact absurd h (by decide)
  simp [scanAtom,List.isPrefixOf,Ne.symm hI]

/-- A text that opens no string and no container is scanned as an atom. -/
theorem scanValue_atom {c : Char} (hq : c≠ '\x22') (ha : c≠ '[') (ho : c≠ '\x7b') (depth : ℕ)
    (s : Text) : scanValue depth (c::s)=scanAtom (c::s) := by
  rw [scanValue.eq_def]
  split
  · rename_i heq
    exact absurd (List.cons.inj heq).1 hq
  · rename_i heq
    exact absurd (List.cons.inj heq).1 ha
  · rename_i heq
    exact absurd (List.cons.inj heq).1 ho
  · rfl

/-- An integer that is not negative is written in digits. -/
theorem ofInt_ofNat (n : ℕ) : ofInt (Int.ofNat n)=Nat.toDigits 10 n := Nat.toList_repr

/-- A negative integer is written with its sign before the digits. -/
theorem ofInt_negSucc (n : ℕ) : ofInt (Int.negSucc n)= '-'::Nat.toDigits 10 (n+1) := by
  change ("-"++(n+1).repr).toList=_
  rw [String.toList_append,Nat.toList_repr]
  rfl

/-- The digits of a number start with one of them. -/
theorem toDigits_eq_cons (n : ℕ) :
    ∃ c digits, Nat.toDigits 10 n=c::digits ∧ c.isDigit=true := by
  obtain ⟨c,digits,hdigits⟩ :=
    List.exists_cons_of_ne_nil (Nat.toDigits_ne_nil (n := n) (b := 10))
  exact ⟨c,digits,hdigits,Nat.isDigit_of_mem_toDigits (b := 10) (n := n) (by decide) (by decide)
    (by rw [hdigits]; exact List.mem_cons_self)⟩

/-- A written integer is read again. -/
theorem scanValue_ofInt {n : ℤ} {rest : Text} (depth : ℕ)
    (hlen : (Nat.toDigits 10 n.natAbs).length ≤ maxDigits) (hrest : NumberEnds rest) :
    scanValue depth (ofInt n++rest)=.ok (.int n,rest) := by
  obtain ⟨c,digits,hdigits,hc⟩ := toDigits_eq_cons n.natAbs
  have hne : c≠ '\x22' ∧ c≠ '[' ∧ c≠ '\x7b' := by
    refine ⟨?_,?_,?_⟩ <;> (rintro rfl; exact absurd hc (by decide))
  cases n with
  | ofNat n =>
    have hscan := scanNumber_toDigits false (n := n) hlen hrest
    rw [ofInt_ofNat]
    rw [show Nat.toDigits 10 n=c::digits from hdigits] at hscan ⊢
    rw [List.cons_append,scanValue_atom hne.1 hne.2.1 hne.2.2,scanAtom_digit hc]
    exact hscan
  | negSucc n =>
    have hscan := scanNumber_toDigits true (n := n+1) hlen hrest
    rw [ofInt_negSucc]
    rw [show Nat.toDigits 10 (n+1)=c::digits from hdigits] at hscan ⊢
    rw [List.cons_append,List.cons_append,scanValue_atom (by decide) (by decide) (by decide),
      scanAtom_minus hc]
    exact hscan

end Numbers

section Containers

/-- The code points that no value starts with: white space, the ends of the
containers and the byte order mark. -/
def startless : Text := " \t\n\r]\x7d\uFEFF".toList

/-- The text starts as a value does. -/
def Starts (s : Text) : Prop := ∃ c t, s=c::t ∧ c∉startless

/-- White space is skipped up to the first other code point. -/
theorem skipSpace_cons {c : Char} (h : " \t\n\r".toList.contains c=false) (s : Text) :
    skipSpace (c::s)=c::s :=
  List.dropWhile_cons_of_neg (Bool.eq_false_iff.mp h)

/-- The blank behind a comma or a colon is skipped. -/
theorem skipSpace_blank (s : Text) : skipSpace (' '::s)=skipSpace s :=
  List.dropWhile_cons_of_pos (by decide)

/-- What starts without white space stays. -/
theorem skipSpace_starts {s : Text} (h : Starts s) (rest : Text) :
    skipSpace (s++rest)=s++rest := by
  obtain ⟨c,t,rfl,hc⟩ := h
  refine skipSpace_cons (Bool.eq_false_iff.mpr fun hmem => hc ?_) _
  have all : ∀ d∈" \t\n\r".toList, d∈startless := by decide
  exact all c (List.contains_iff_mem.mp hmem)

/-- No number goes on into a comma. -/
theorem numberEnds_cons {c : Char} (hdigit : c.isDigit=false)
    (h : c≠ '.' ∧ c≠ 'e' ∧ c≠ 'E') (rest : Text) : NumberEnds (c::rest) := by
  intro d hd
  obtain rfl : c=d := Option.some.inj hd
  exact ⟨hdigit,h⟩

variable (scan : Text → Except LoadsError (JsonValue×Text))

/-- The scanner reads the text as the value, whatever stands behind it. -/
def Reads (value : JsonValue) (s : Text) : Prop :=
  Starts s ∧ ∀ rest, NumberEnds rest → scan (s++rest)=.ok (value,rest)

/-- The scanner reads the text as a field. -/
def FieldReads (field : Text×JsonValue) (s : Text) : Prop :=
  ∃ text, s=encodeString field.1++": ".toList++text ∧ Reads scan field.2 text

variable {scan}

/-- Two parts and more, joined. -/
theorem join_cons_cons (part next : Text) (parts : List Text) :
    join ", ".toList (part::next::parts)=part++ ',':: ' '::join ", ".toList (next::parts) := by
  rw [join,join,List.intercalate_cons_cons,List.append_assoc]
  rfl

/-- One part, joined. -/
theorem join_singleton (sep part : Text) : join sep [part]=part := List.intercalate_singleton

/-- Joined parts start as the first of them does. -/
theorem starts_join {part : Text} (h : Starts part) (parts : List Text) :
    Starts (join ", ".toList (part::parts)) := by
  obtain ⟨c,t,rfl,hc⟩ := h
  cases parts with
  | nil => exact ⟨c,t,join_singleton _ _,hc⟩
  | cons next parts => exact ⟨c,_,join_cons_cons _ _ _,hc⟩

/-- Parts that start with something are at least as many code points. -/
theorem length_le_join {parts : List Text} (h : ∀ part∈parts, part≠[]) :
    parts.length≤(join ", ".toList parts).length := by
  induction parts with
  | nil => exact Nat.zero_le _
  | cons part parts ih =>
    have hpart : 0<part.length := List.length_pos_iff.mpr (h part List.mem_cons_self)
    have hrest := ih fun q hq => h q (List.mem_cons_of_mem _ hq)
    cases parts with
    | nil =>
      rw [join_singleton]
      exact hpart
    | cons next parts =>
      rw [join_cons_cons]
      simp only [List.length_cons,List.length_append] at hrest ⊢
      omega

/-- Joined items are read one by one up to the bracket. -/
theorem scanItems_join {items : List JsonValue} {parts : List Text}
    (h : List.Forall₂ (Reads scan) items parts) (hne : parts≠[]) (rest : Text) {fuel : ℕ}
    (hfuel : parts.length≤fuel) :
    scanItems scan fuel (join ", ".toList parts++ ']'::rest)=.ok (items,rest) := by
  induction h generalizing fuel with
  | nil => exact absurd rfl hne
  | @cons item part items parts hread hreads ih =>
    obtain ⟨fuel,rfl⟩ : ∃ k, fuel=k+1 := Nat.exists_eq_succ_of_ne_zero (by
      simp only [List.length_cons] at hfuel
      omega)
    cases hreads with
    | nil =>
      have hscan := hread.2 (']'::rest) (numberEnds_cons (by decide) (by decide) rest)
      rw [join_singleton,scanItems,hscan]
      rfl
    | @cons next text items parts hnext hreads =>
      have hscan := hread.2 (','::(' '::(join ", ".toList (text::parts)++ ']'::rest)))
        (numberEnds_cons (by decide) (by decide) _)
      have hrest := ih (by simp) (Nat.le_of_succ_le_succ hfuel)
      have hskip : skipSpace (' '::(join ", ".toList (text::parts)++ ']'::rest))=
          join ", ".toList (text::parts)++ ']'::rest := by
        rw [skipSpace_blank,skipSpace_starts (starts_join hnext.1 parts)]
      rw [join_cons_cons,List.append_assoc,List.cons_append,List.cons_append,scanItems,hscan]
      change (scanItems scan fuel (skipSpace (' '::(join ", ".toList (text::parts)++ ']'::rest)))
        >>= fun out => pure (item::out.1,out.2))=_
      rw [hskip,hrest]
      rfl

/-- A new key goes behind the others. -/
theorem dictSet_absent {key : Text} {value : JsonValue} {fields : List (Text×JsonValue)}
    (h : key∉fields.map Prod.fst) : dictSet key value fields=fields++[(key,value)] := by
  induction fields with
  | nil => rfl
  | cons field fields ih =>
    rw [List.map_cons,List.mem_cons,not_or] at h
    rw [dictSet,if_neg (Ne.symm h.1),ih h.2,List.cons_append]

/-- One written field is read and put behind the fields before. -/
theorem scanFields_field {field : Text×JsonValue} {part : Text} (h : FieldReads scan field part)
    {before : List (Text×JsonValue)} (habsent : field.1∉before.map Prod.fst) (fuel : ℕ)
    {behind : Text} (hbehind : NumberEnds behind) :
    scanFields scan (fuel+1) before (part++behind)=
      match skipSpace behind with
      | '\x7d'::s => .ok (before++[field],s)
      | ','::s => scanFields scan fuel (before++[field]) (skipSpace s)
      | _ => .error .decode := by
  obtain ⟨key,value⟩ := field
  obtain ⟨text,rfl,hstart,hread⟩ := h
  have hpart : encodeString key++": ".toList++text++behind=
      '\x22'::(key.flatMap escapeChar++ '\x22'::(':'::(' '::(text++behind)))) := by
    simp only [encodeString,List.cons_append,List.append_assoc]
    rfl
  have hcolon : skipSpace (':'::(' '::(text++behind)))= ':'::(' '::(text++behind)) :=
    skipSpace_cons (by decide) _
  have hvalue : skipSpace (' '::(text++behind))=text++behind := by
    rw [skipSpace_blank,skipSpace_starts hstart]
  rw [hpart,scanFields,List.head?_cons,if_pos rfl,List.tail_cons,scanString_encode]
  change ((if (skipSpace (':'::(' '::(text++behind)))).head?=some ':' then
        scan (skipSpace (skipSpace (':'::(' '::(text++behind)))).tail)
      else throw LoadsError.decode) >>= fun out => match skipSpace out.2 with
    | '\x7d'::s => pure (dictSet key out.1 before,s)
    | ','::s => scanFields scan fuel (dictSet key out.1 before) (skipSpace s)
    | _ => throw LoadsError.decode)=_
  rw [hcolon,List.head?_cons,if_pos rfl,List.tail_cons,hvalue,hread behind hbehind]
  change (match skipSpace behind with
    | '\x7d'::s => pure (dictSet key value before,s)
    | ','::s => scanFields scan fuel (dictSet key value before) (skipSpace s)
    | _ => throw LoadsError.decode)=_
  rw [dictSet_absent habsent]
  rfl

/-- Joined fields with distinct keys are read one by one up to the brace. -/
theorem scanFields_join {fields : List (Text×JsonValue)} {parts : List Text}
    (h : List.Forall₂ (FieldReads scan) fields parts) (hne : parts≠[]) (rest : Text) {fuel : ℕ}
    (hfuel : parts.length≤fuel) {before : List (Text×JsonValue)}
    (hkeys : ((before++fields).map Prod.fst).Nodup) :
    scanFields scan fuel before (join ", ".toList parts++ '\x7d'::rest)=
      .ok (before++fields,rest) := by
  induction h generalizing fuel before with
  | nil => exact absurd rfl hne
  | @cons field part fields parts hread hreads ih =>
    obtain ⟨fuel,rfl⟩ : ∃ k, fuel=k+1 := Nat.exists_eq_succ_of_ne_zero (by
      simp only [List.length_cons] at hfuel
      omega)
    have habsent : field.1∉before.map Prod.fst := by
      rw [List.map_append,List.nodup_append] at hkeys
      exact fun hmem => hkeys.2.2 _ hmem _ List.mem_cons_self rfl
    cases hreads with
    | nil =>
      rw [join_singleton,scanFields_field hread habsent fuel
        (numberEnds_cons (by decide) (by decide) rest),skipSpace_cons (by decide)]
      rfl
    | @cons next text fields parts hnext hreads =>
      have hshift : before++field::next::fields=before++[field]++next::fields := by simp
      have hrest := ih (by simp) (Nat.le_of_succ_le_succ hfuel) (hshift ▸ hkeys)
      have hstart : Starts text := by
        obtain ⟨value,rfl,-⟩ := hnext
        exact ⟨'\x22',_,rfl,by decide⟩
      have hskip : skipSpace (' '::(join ", ".toList (text::parts)++ '\x7d'::rest))=
          join ", ".toList (text::parts)++ '\x7d'::rest := by
        rw [skipSpace_blank,skipSpace_starts (starts_join hstart parts)]
      rw [join_cons_cons,List.append_assoc,List.cons_append,List.cons_append,
        scanFields_field hread habsent fuel (numberEnds_cons (by decide) (by decide) _),
        skipSpace_cons (by decide)]
      change scanFields scan fuel (before++[field])
        (skipSpace (' '::(join ", ".toList (text::parts)++ '\x7d'::rest)))=_
      rw [hskip,hrest,hshift]

end Containers

section Values

variable {float : PyFloat → Text}

/-- Parts that are each read as something are no more than the code points of
the text that the scanner goes through. -/
theorem length_le_behind {α : Type*} {R : α → Text → Prop} (hR : ∀ a part, R a part → part≠[])
    {values : List α} {parts : List Text} (h : List.Forall₂ R values parts) (behind : Text) :
    parts.length≤(join ", ".toList parts++behind).length := by
  have hne : ∀ part∈parts, part≠[] := by
    induction h with
    | nil => exact List.forall_mem_nil _
    | cons hread _ ih => exact List.forall_mem_cons.mpr ⟨hR _ _ hread,ih⟩
  rw [List.length_append]
  exact Nat.le_add_right_of_le (length_le_join hne)

/-- What starts is not empty. -/
theorem Starts.ne_nil {s : Text} (h : Starts s) : s≠[] := by
  obtain ⟨c,t,rfl,-⟩ := h
  exact List.cons_ne_nil _ _

/-- A part that is read as an item is not empty. -/
theorem Reads.ne_nil {scan : Text → Except LoadsError (JsonValue×Text)} {value : JsonValue}
    {s : Text} (h : Reads scan value s) : s≠[] := h.1.ne_nil

/-- A part that is read as a field starts with a quote. -/
theorem FieldReads.starts {scan : Text → Except LoadsError (JsonValue×Text)}
    {field : Text×JsonValue} {s : Text} (h : FieldReads scan field s) : Starts s := by
  obtain ⟨text,rfl,-⟩ := h
  exact ⟨'\x22',_,rfl,by decide⟩

/-- A digit starts a value, and so does a sign. -/
theorem starts_digit {c : Char} (h : c.isDigit=true ∨ c= '-') (s : Text) : Starts (c::s) := by
  have all : ∀ d∈startless, ¬(d.isDigit=true ∨ d= '-') := by decide
  exact ⟨c,s,rfl,fun hc => all c hc h⟩

/-- A written integer starts a value. -/
theorem starts_ofInt (n : ℤ) : Starts (ofInt n) := by
  cases n with
  | ofNat n =>
    obtain ⟨c,digits,hdigits,hc⟩ := toDigits_eq_cons n
    rw [ofInt_ofNat,hdigits]
    exact starts_digit (Or.inl hc) _
  | negSucc n =>
    rw [ofInt_negSucc]
    exact starts_digit (Or.inr rfl) _

/-- A bracketed text is scanned as its items. -/
theorem scanValue_array {depth : ℕ} {items : List JsonValue} {parts : List Text}
    (h : List.Forall₂ (Reads (scanValue depth)) items parts) (rest : Text) :
    scanValue (depth+1) ('['::(join ", ".toList parts++[']'])++rest)=.ok (.array items,rest) := by
  rw [List.cons_append,List.append_assoc,List.singleton_append]
  cases h with
  | nil =>
    rw [scanValue.eq_def]
    rfl
  | @cons item part items parts hread hreads =>
    have hstart := starts_join hread.1 parts
    have hall : List.Forall₂ (Reads (scanValue depth)) (item::items) (part::parts) :=
      .cons hread hreads
    have hscan := scanItems_join hall (List.cons_ne_nil _ _) rest
      (length_le_behind (fun _ _ => Reads.ne_nil) hall (']'::rest))
    obtain ⟨c,t,ht,hc⟩ := id hstart
    have hskip : skipSpace (c::(t++ ']'::rest))=c::(t++ ']'::rest) := by
      have := skipSpace_starts hstart (']'::rest)
      rwa [ht] at this
    rw [ht] at hscan ⊢
    rw [List.cons_append] at hscan ⊢
    rw [scanValue.eq_def]
    simp only [hskip]
    split
    · rename_i heq
      obtain rfl := (List.cons.inj heq).1
      exact absurd (by decide) hc
    · rw [hscan]
      rfl

/-- A text in braces is scanned as its fields. -/
theorem scanValue_object {depth : ℕ} {fields : List (Text×JsonValue)} {parts : List Text}
    (h : List.Forall₂ (FieldReads (scanValue depth)) fields parts)
    (hkeys : (fields.map Prod.fst).Nodup) (rest : Text) :
    scanValue (depth+1) ('\x7b'::(join ", ".toList parts++['\x7d'])++rest)=
      .ok (.object fields,rest) := by
  rw [List.cons_append,List.append_assoc,List.singleton_append]
  cases h with
  | nil =>
    rw [scanValue.eq_def]
    rfl
  | @cons field part fields parts hread hreads =>
    have hstart := starts_join hread.starts parts
    have hall : List.Forall₂ (FieldReads (scanValue depth)) (field::fields) (part::parts) :=
      .cons hread hreads
    have hscan := scanFields_join hall (List.cons_ne_nil _ _) rest
      (length_le_behind (fun _ _ h => (FieldReads.starts h).ne_nil) hall ('\x7d'::rest))
      (show (([]++field::fields).map Prod.fst).Nodup from hkeys)
    obtain ⟨c,t,ht,hc⟩ := id hstart
    have hskip : skipSpace (c::(t++ '\x7d'::rest))=c::(t++ '\x7d'::rest) := by
      have := skipSpace_starts hstart ('\x7d'::rest)
      rwa [ht] at this
    rw [ht] at hscan ⊢
    rw [List.cons_append] at hscan ⊢
    rw [scanValue.eq_def]
    simp only [hskip]
    split
    · rename_i heq
      obtain rfl := (List.cons.inj heq).1
      exact absurd (by decide) hc
    · rw [hscan]
      rfl

mutual

/-- What is written of a value without floats is read as the value. -/
theorem reads_encode {depth : ℕ} {value : JsonValue} {s : Text}
    (h : encode float depth value=some s) (hplain : JsonPlain value) :
    Reads (scanValue depth) value s := by
  match value with
  | .null =>
    obtain rfl : "null".toList=s := Option.some.inj h
    exact ⟨⟨'n',_,rfl,by decide⟩,
      fun rest _ => scanValue_atom (by decide) (by decide) (by decide) depth _⟩
  | .bool true =>
    obtain rfl : "true".toList=s := Option.some.inj h
    exact ⟨⟨'t',_,rfl,by decide⟩,
      fun rest _ => scanValue_atom (by decide) (by decide) (by decide) depth _⟩
  | .bool false =>
    obtain rfl : "false".toList=s := Option.some.inj h
    exact ⟨⟨'f',_,rfl,by decide⟩,
      fun rest _ => scanValue_atom (by decide) (by decide) (by decide) depth _⟩
  | .int n =>
    rw [encode,encodeInt] at h
    split at h
    · exact absurd h (by simp)
    · rename_i hlen
      obtain rfl := Option.some.inj h
      exact ⟨starts_ofInt n,fun rest hrest => scanValue_ofInt depth (Nat.le_of_not_lt hlen) hrest⟩
  | .float x => exact absurd hplain (by simp [JsonPlain])
  | .string t =>
    rw [encode] at h
    obtain rfl := Option.some.inj h
    refine ⟨⟨'\x22',_,rfl,by decide⟩,fun rest _ => ?_⟩
    rw [encodeString,List.cons_append,List.append_assoc,List.singleton_append,scanValue.eq_def]
    change (scanString _).map _=_
    rw [scanString_encode]
    rfl
  | .array items =>
    cases depth with
    | zero => exact absurd h (by simp [encode])
    | succ depth =>
      rw [encode,Option.map_eq_some_iff] at h
      obtain ⟨parts,hparts,rfl⟩ := h
      rw [JsonPlain] at hplain
      exact ⟨⟨'[',_,rfl,by decide⟩,
        fun rest _ => scanValue_array (reads_encodeItems hparts hplain) rest⟩
  | .object fields =>
    cases depth with
    | zero => exact absurd h (by simp [encode])
    | succ depth =>
      rw [encode,Option.map_eq_some_iff] at h
      obtain ⟨parts,hparts,rfl⟩ := h
      rw [JsonPlain] at hplain
      exact ⟨⟨'\x7b',_,rfl,by decide⟩,
        fun rest _ => scanValue_object (reads_encodeFields hparts hplain.2) hplain.1 rest⟩

/-- The same for every item of an array. -/
theorem reads_encodeItems {depth : ℕ} {items : List JsonValue} {parts : List Text}
    (h : encodeItems float depth items=some parts) (hplain : ItemsPlain items) :
    List.Forall₂ (Reads (scanValue depth)) items parts := by
  match items with
  | [] =>
    rw [encodeItems] at h
    obtain rfl := Option.some.inj h
    exact .nil
  | item::items =>
    rw [encodeItems,Option.bind_eq_some_iff] at h
    obtain ⟨part,hpart,h⟩ := h
    obtain ⟨parts,hparts,rfl⟩ := Option.map_eq_some_iff.mp h
    rw [ItemsPlain] at hplain
    exact .cons (reads_encode hpart hplain.1) (reads_encodeItems hparts hplain.2)

/-- The same for every field of an object. -/
theorem reads_encodeFields {depth : ℕ} {fields : List (Text×JsonValue)} {parts : List Text}
    (h : encodeFields float depth fields=some parts) (hplain : FieldsPlain fields) :
    List.Forall₂ (FieldReads (scanValue depth)) fields parts := by
  match fields with
  | [] =>
    rw [encodeFields] at h
    obtain rfl := Option.some.inj h
    exact .nil
  | (key,value)::fields =>
    rw [encodeFields,Option.bind_eq_some_iff] at h
    obtain ⟨part,hpart,h⟩ := h
    obtain ⟨parts,hparts,rfl⟩ := Option.map_eq_some_iff.mp h
    rw [FieldsPlain] at hplain
    exact .cons ⟨part,rfl,reads_encode hpart hplain.1⟩ (reads_encodeFields hparts hplain.2)

end

/-- `json.loads` reads a value without floats as `json.dumps` wrote it. -/
theorem loads_dumps {depth : ℕ} {value : JsonValue} {s : Text}
    (h : dumps float depth value=some s) (hplain : JsonPlain value) :
    loads depth s=.ok value := by
  obtain ⟨hstart,hread⟩ := reads_encode h hplain
  have hscan := hread [] (fun c hc => absurd hc (by simp))
  have hskip := skipSpace_starts hstart []
  rw [List.append_nil] at hscan hskip
  have hmark : s.head?≠some '\uFEFF' := by
    obtain ⟨c,t,rfl,hc⟩ := hstart
    rintro heq
    obtain rfl := Option.some.inj heq
    exact absurd (by decide) hc
  rw [loads,if_neg hmark,hskip,hscan]
  rfl

end Values

section Printable

variable {float : PyFloat → Text}

/-- A printable ASCII character. -/
def Printable (c : Char) : Prop := 32 ≤ c.toNat ∧ c.toNat≤126

instance (c : Char) : Decidable (Printable c) := inferInstanceAs (Decidable (_ ∧ _))

/-- Whatever an escape writes is printable. -/
theorem printable_unitEscape (n : ℕ) : ∀ d∈unitEscape n, Printable d := by
  have all : ∀ k<16, Printable (Nat.digitChar k) := by decide
  have hdigit (k : ℕ) : Printable (Nat.digitChar (k%16)) := all _ (Nat.mod_lt _ (by decide))
  rw [unitEscape,hexDigits_four]
  simp only [List.forall_mem_cons]
  exact ⟨by decide,by decide,hdigit _,hdigit _,hdigit _,hdigit _,List.forall_mem_nil _⟩

/-- Whatever stands for a code point is printable. -/
theorem printable_escapeChar (c : Char) : ∀ d∈escapeChar c, Printable d := by
  simp only [escapeChar]
  split_ifs with _ _ _ _ _ _ _ hp
  iterate 7 decide
  · intro d hd
    obtain rfl := List.mem_singleton.mp hd
    rw [Bool.and_eq_true,decide_eq_true_eq,decide_eq_true_eq] at hp
    exact hp
  · exact printable_unitEscape _
  · exact List.forall_mem_append.mpr ⟨printable_unitEscape _,printable_unitEscape _⟩

/-- A written string is printable. -/
theorem printable_encodeString (s : Text) : ∀ d∈encodeString s, Printable d := by
  rw [encodeString]
  refine List.forall_mem_cons.mpr ⟨by decide,List.forall_mem_append.mpr ⟨?_,by decide⟩⟩
  intro d hd
  obtain ⟨c,-,hdc⟩ := List.mem_flatMap.mp hd
  exact printable_escapeChar c d hdc

/-- A written integer is printable. -/
theorem printable_ofInt (n : ℤ) : ∀ d∈ofInt n, Printable d := by
  have hdigits (k : ℕ) : ∀ d∈Nat.toDigits 10 k, Printable d := by
    intro d hd
    have h : 48 ≤ d.toNat ∧ d.toNat≤57 := Char.isDigit_iff_toNat.mp
      (Nat.isDigit_of_mem_toDigits (by decide) (by decide) hd)
    exact ⟨by omega,by omega⟩
  cases n with
  | ofNat n =>
    rw [ofInt_ofNat]
    exact hdigits n
  | negSucc n =>
    rw [ofInt_negSucc]
    exact List.forall_mem_cons.mpr ⟨by decide,hdigits _⟩

/-- Printable parts are joined to a printable text. -/
theorem printable_join {parts : List Text} (h : ∀ part∈parts, ∀ d∈part, Printable d) :
    ∀ d∈join ", ".toList parts, Printable d := by
  induction parts with
  | nil => exact List.forall_mem_nil _
  | cons part parts ih =>
    rw [List.forall_mem_cons] at h
    cases parts with
    | nil =>
      rw [join_singleton]
      exact h.1
    | cons next parts =>
      rw [join_cons_cons]
      exact List.forall_mem_append.mpr ⟨h.1,List.forall_mem_cons.mpr
        ⟨by decide,List.forall_mem_cons.mpr ⟨by decide,ih h.2⟩⟩⟩

mutual

/-- What is written of a value without floats is printable. -/
theorem printable_encode {depth : ℕ} {value : JsonValue} {s : Text}
    (h : encode float depth value=some s) (hplain : JsonPlain value) : ∀ d∈s, Printable d := by
  match value with
  | .null =>
    obtain rfl : "null".toList=s := Option.some.inj h
    decide
  | .bool true =>
    obtain rfl : "true".toList=s := Option.some.inj h
    decide
  | .bool false =>
    obtain rfl : "false".toList=s := Option.some.inj h
    decide
  | .int n =>
    rw [encode,encodeInt] at h
    split at h
    · exact absurd h (by simp)
    · obtain rfl := Option.some.inj h
      exact printable_ofInt n
  | .float x => exact absurd hplain (by simp [JsonPlain])
  | .string t =>
    rw [encode] at h
    obtain rfl := Option.some.inj h
    exact printable_encodeString t
  | .array items =>
    cases depth with
    | zero => exact absurd h (by simp [encode])
    | succ depth =>
      rw [encode,Option.map_eq_some_iff] at h
      obtain ⟨parts,hparts,rfl⟩ := h
      rw [JsonPlain] at hplain
      exact List.forall_mem_cons.mpr ⟨by decide,List.forall_mem_append.mpr
        ⟨printable_join (printable_encodeItems hparts hplain),by decide⟩⟩
  | .object fields =>
    cases depth with
    | zero => exact absurd h (by simp [encode])
    | succ depth =>
      rw [encode,Option.map_eq_some_iff] at h
      obtain ⟨parts,hparts,rfl⟩ := h
      rw [JsonPlain] at hplain
      exact List.forall_mem_cons.mpr ⟨by decide,List.forall_mem_append.mpr
        ⟨printable_join (printable_encodeFields hparts hplain.2),by decide⟩⟩

/-- The same for every item of an array. -/
theorem printable_encodeItems {depth : ℕ} {items : List JsonValue} {parts : List Text}
    (h : encodeItems float depth items=some parts) (hplain : ItemsPlain items) :
    ∀ part∈parts, ∀ d∈part, Printable d := by
  match items with
  | [] =>
    rw [encodeItems] at h
    obtain rfl := Option.some.inj h
    exact List.forall_mem_nil _
  | item::items =>
    rw [encodeItems,Option.bind_eq_some_iff] at h
    obtain ⟨part,hpart,h⟩ := h
    obtain ⟨parts,hparts,rfl⟩ := Option.map_eq_some_iff.mp h
    rw [ItemsPlain] at hplain
    exact List.forall_mem_cons.mpr
      ⟨printable_encode hpart hplain.1,printable_encodeItems hparts hplain.2⟩

/-- The same for every field of an object. -/
theorem printable_encodeFields {depth : ℕ} {fields : List (Text×JsonValue)} {parts : List Text}
    (h : encodeFields float depth fields=some parts) (hplain : FieldsPlain fields) :
    ∀ part∈parts, ∀ d∈part, Printable d := by
  match fields with
  | [] =>
    rw [encodeFields] at h
    obtain rfl := Option.some.inj h
    exact List.forall_mem_nil _
  | (key,value)::fields =>
    rw [encodeFields,Option.bind_eq_some_iff] at h
    obtain ⟨part,hpart,h⟩ := h
    obtain ⟨parts,hparts,rfl⟩ := Option.map_eq_some_iff.mp h
    rw [FieldsPlain] at hplain
    have hkey : ∀ d∈": ".toList, Printable d := by decide
    exact List.forall_mem_cons.mpr ⟨List.forall_mem_append.mpr ⟨List.forall_mem_append.mpr
        ⟨printable_encodeString key,hkey⟩,printable_encode hpart hplain.1⟩,
      printable_encodeFields hparts hplain.2⟩

end

end Printable

end ScamLens.JsonDumps
