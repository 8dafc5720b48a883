import Mathlib.Data.List.DropRight
import Mathlib.Data.List.Infix
import ScamLens.CaseMappings

/-!
# Text operations with the semantics of Python strings

A string is its list of code points. Each function is the Python operation of
its name. Lower-casing is that of Unicode for each code point by itself: the
capital sigma at the end of a word, where Python writes the final form, gets the
form of the other places. Upper-casing is exact wherever its result is an ASCII
letter; other code points keep themselves.
-/

namespace ScamLens.PythonText

/-- A Python string as its list of code points. -/
abbrev Text := List Char

/-- A property of the characters of a text is decided by going through them,
not through all code points. -/
instance decidableForallText (p : Char → Prop) [DecidablePred p] (s : Text) :
    Decidable (∀ c∈s, p c) := List.decidableBAll p s

/-- The same for the first character, if there is one. -/
instance decidableForallOption (p : Char → Prop) [DecidablePred p] (first : Option Char) :
    Decidable (∀ c∈first, p c) := Option.decidableForallMem first

/-- Lower-case image of one code point. -/
def lowerChar (c : Char) : Text :=
  if c.toNat<128 then [c.toLower]
  else if c = '\u212A' then ['k']
  else if c = '\u0130' then ['i','\u0307']
  else [Char.ofNat (CaseMappings.lowerCode c.toNat)]

/-- `s.lower()`. -/
def lower (s : Text) : Text := s.flatMap lowerChar

/-- Upper-case image of one code point. Besides the small ASCII letters, only
the listed ones have an image that contains an ASCII letter. -/
def upperChar (c : Char) : Text :=
  if c = '\u00DF' then ['S','S']
  else if c = '\u0131' then ['I']
  else if c = '\u0149' then ['\u02BC','N']
  else if c = '\u017F' then ['S']
  else if c = '\u01F0' then ['J','\u030C']
  else if c = '\u1E96' then ['H','\u0331']
  else if c = '\u1E97' then ['T','\u0308']
  else if c = '\u1E98' then ['W','\u030A']
  else if c = '\u1E99' then ['Y','\u030A']
  else if c = '\u1E9A' then ['A','\u02BE']
  else if c = '\uFB00' then ['F','F']
  else if c = '\uFB01' then ['F','I']
  else if c = '\uFB02' then ['F','L']
  else if c = '\uFB03' then ['F','F','I']
  else if c = '\uFB04' then ['F','F','L']
  else if c = '\uFB05' ∨ c = '\uFB06' then ['S','T']
  else [c.toUpper]

/-- `s.upper()`. -/
def upper (s : Text) : Text := s.flatMap upperChar

/-- `c.isspace()` for one code point. -/
def isSpace (c : Char) : Bool :=
  let n := c.toNat
  (9≤n && n≤13) || (28≤n && n≤32) || n==0x85 || n==0xA0 || n==0x1680 ||
    (0x2000≤n && n≤0x200A) || n==0x2028 || n==0x2029 || n==0x202F || n==0x205F || n==0x3000

/-- `s.strip()`. -/
def strip (s : Text) : Text := (s.dropWhile isSpace).rdropWhile isSpace

/-- `s.rstrip(c)` for a single character. -/
def rstripChar (c : Char) (s : Text) : Text := s.rdropWhile (·==c)

/-- `s.strip(c)` for a single character. -/
def stripChar (c : Char) (s : Text) : Text := rstripChar c (s.dropWhile (·==c))

/-- `part in s`. -/
def contains (part s : Text) : Bool := s.tails.any fun tail => part.isPrefixOf tail

/-- `sep.join(parts)`. -/
def join (sep : Text) (parts : List Text) : Text := sep.intercalate parts

/-- `s.replace(src, dst)` for a nonempty source: leftmost matches, left to
right. The counter skips what is left of a match already replaced. -/
def replaceFrom (src dst : Text) : ℕ → Text → Text
  | _,[] => []
  | skip+1,_::s => replaceFrom src dst skip s
  | 0,c::s =>
    if src.isPrefixOf (c::s) then dst++replaceFrom src dst (src.length-1) s
    else c::replaceFrom src dst 0 s

/-- `s.replace(src, dst)`. -/
def replace (src dst s : Text) : Text := replaceFrom src dst 0 s

/-- `s.find(part, start)`: the least position from `start` on at which the
part occurs, or none for Python's -1. -/
def find (s part : Text) (start : ℕ) : Option ℕ :=
  ((List.range (s.length+1)).filter fun i => start ≤ i && part.isPrefixOf (s.drop i)).head?

/-- `str(n)` of an integer. -/
def ofInt (n : ℤ) : Text := (toString n).toList

/-- Lower-casing moves the ASCII capitals to the small letters, and nothing
else. -/
theorem toLower_cases (c : Char) :
    c.toLower=c ∨ (65 ≤ c.toNat ∧ c.toNat≤90 ∧ c.toLower.toNat=c.toNat+32) := by
  by_cases hc : c.val≥ 'A'.val ∧ c.val≤ 'Z'.val
  · have h65 : 65 ≤ c.toNat := hc.1
    have h90 : c.toNat≤90 := hc.2
    refine .inr ⟨h65,h90,?_⟩
    have hl : c.toLower.toNat=(c.val+32).toNat := congrArg Char.toNat (dif_pos hc)
    rw [hl,UInt32.toNat_add]
    have hval : c.val.toNat=c.toNat := rfl
    have h32 : (32 : UInt32).toNat=32 := rfl
    omega
  · exact .inl (dif_neg hc)

/-- Lower-casing keeps a dot and makes no new one. -/
theorem toLower_eq_dot_iff {c : Char} : c.toLower = '.' ↔ c = '.' := by
  have hdot : ('.' : Char).toNat=46 := rfl
  rcases toLower_cases c with hself|⟨h65,-,hlow⟩
  · rw [hself]
  · constructor
    · intro h
      rw [h,hdot] at hlow
      omega
    · intro h
      rw [h,hdot] at h65
      omega

/-- ASCII characters are lower-cased as such. -/
theorem lowerChar_ascii {c : Char} (h : c.toNat<128) : lowerChar c=[c.toLower] := if_pos h

/-- Outside ASCII, only the Kelvin sign and the dotted I have an image with an
ASCII character. -/
theorem mem_lowerChar {c d : Char} (h : d∈lowerChar c) :
    c.toNat<128 ∧ d=c.toLower ∨ d = 'k' ∨ d = 'i' ∨ 128≤d.toNat := by
  unfold lowerChar at h
  split_ifs at h with hascii hkelvin hdotted
  · exact .inl ⟨hascii,List.mem_singleton.mp h⟩
  · exact .inr (.inl (List.mem_singleton.mp h))
  · rcases List.mem_cons.mp h with rfl|h
    · exact .inr (.inr (.inl rfl))
    · refine .inr (.inr (.inr ?_))
      rw [List.mem_singleton.mp h]
      decide
  · obtain ⟨hlow,hvalid⟩ := CaseMappings.lowerCode_sound (Nat.le_of_not_lt hascii) c.valid
    refine .inr (.inr (.inr ?_))
    rw [List.mem_singleton.mp h,Char.ofNat,dif_pos hvalid]
    exact hlow

/-- A code point other than the dot has no dot in lower case. -/
theorem dot_not_mem_lowerChar {c : Char} (hc : c≠ '.') : '.'∉lowerChar c := by
  intro h
  rcases mem_lowerChar h with ⟨-,h⟩|h|h|h
  · exact hc (toLower_eq_dot_iff.mp h.symm)
  · exact absurd h (by decide)
  · exact absurd h (by decide)
  · exact absurd h (by decide)

/-- Text without a dot has none in lower case. -/
theorem dot_not_mem_lower {s : Text} (h : '.'∉s) : '.'∉lower s := by
  intro hmem
  obtain ⟨c,hc,hdot⟩ := List.mem_flatMap.mp hmem
  exact dot_not_mem_lowerChar (fun he => h (he ▸ hc)) hdot

/-- Lower-case code points are fixed by lower-casing. -/
theorem lower_eq_self {s : Text} (h : ∀ c∈s, lowerChar c=[c]) : lower s=s := by
  induction s with
  | nil => rfl
  | cons c s ih =>
    have hc := h c List.mem_cons_self
    have hs := ih fun c' hc' => h c' (List.mem_cons_of_mem _ hc')
    rw [lower,List.flatMap_cons,hc,List.singleton_append]
    exact congrArg (c::·) hs

/-- The printing ASCII characters are no white space. -/
theorem isSpace_eq_false {c : Char} (hlow : 33 ≤ c.toNat) (hhigh : c.toNat<128) :
    isSpace c=false := by
  simp only [isSpace,Bool.or_eq_false_iff,Bool.and_eq_false_iff,decide_eq_false_iff_not,
    beq_eq_false_iff_ne]
  omega

/-- Text without white space is fixed by stripping. -/
theorem strip_eq_self {s : Text} (h : ∀ c∈s, isSpace c=false) : strip s=s := by
  have hhead : s.dropWhile isSpace=s := by
    rw [List.dropWhile_eq_self_iff]
    intro hl
    exact Bool.eq_false_iff.mp (h _ (List.getElem_mem hl))
  rw [strip,hhead,List.rdropWhile_eq_self_iff]
  intro hl
  exact Bool.eq_false_iff.mp (h _ (List.getLast_mem hl))

/-- Stripping a character leaves text that does not end with it alone. -/
theorem rstripChar_eq_self {c : Char} {s : Text} (h : ∀ hs : s≠[], s.getLast hs≠c) :
    rstripChar c s=s := by
  rw [rstripChar,List.rdropWhile_eq_self_iff]
  intro hs he
  exact h hs (beq_iff_eq.mp he)

/-- Only what follows the last other symbol is dropped. -/
theorem rdropWhile_append (p : Char → Bool) {front : Text} (h : ∀ c∈front.getLast?, p c=false)
    (back : Text) : (front++back).rdropWhile p=front++back.rdropWhile p := by
  induction back using List.reverseRecOn with
  | nil =>
    rw [List.append_nil,List.rdropWhile_nil,List.append_nil,List.rdropWhile_eq_self_iff]
    intro hne
    exact Bool.eq_false_iff.mp (h _ (List.getLast?_eq_some_getLast hne))
  | append_singleton back c ih =>
    rw [←List.append_assoc]
    by_cases hc : p c=true
    · rw [List.rdropWhile_concat_pos _ _ _ hc,List.rdropWhile_concat_pos _ _ _ hc,ih]
    · rw [List.rdropWhile_concat_neg _ _ _ hc,List.rdropWhile_concat_neg _ _ _ hc,
        List.append_assoc]

/-- Stripping a character keeps every other one. -/
theorem mem_rstripChar {c d : Char} {s : Text} (hne : c≠d) (h : c∈s) : c∈rstripChar d s := by
  induction s using List.reverseRecOn with
  | nil => exact absurd h List.not_mem_nil
  | append_singleton s e ih =>
    by_cases he : (e == d)=true
    · rw [rstripChar,List.rdropWhile_concat_pos (· == d) s e he]
      refine ih ((List.mem_append.mp h).resolve_right fun hlast => hne ?_)
      rw [List.mem_singleton.mp hlast,beq_iff_eq.mp he]
    · rwa [rstripChar,List.rdropWhile_concat_neg (· == d) s e he]

/-- Stripping leaves text without white space in front of any other alone. -/
theorem strip_append {front : Text} (hne : front≠[]) (h : ∀ c∈front, isSpace c=false)
    (back : Text) : strip (front++back)=front++back.rdropWhile isSpace := by
  have hstart : (front++back).dropWhile isSpace=front++back := by
    obtain ⟨c,rest,rfl⟩ := List.exists_cons_of_ne_nil hne
    exact List.dropWhile_cons_of_neg (Bool.eq_false_iff.mp (h c List.mem_cons_self))
  rw [strip,hstart,rdropWhile_append isSpace fun c hc => h c (List.mem_of_getLast? hc)]

/-- Code points are lower-cased one by one. -/
theorem lower_append (front back : Text) : lower (front++back)=lower front++lower back :=
  List.flatMap_append

end ScamLens.PythonText
