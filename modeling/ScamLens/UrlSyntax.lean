import ScamLens.PythonText

/-!
# The generic syntax of URLs

A URL with an authority is cut at its delimiters: the scheme ends at the first
colon, the authority at the first slash, question mark or number sign behind
the two slashes, the path at the first question mark or number sign. Within
the authority the user information ends at the at sign and the host at the
colon of the port, which is a number. Every component has the characters that
the syntax gives it and no others, so that white space, control characters,
backslashes and non-ASCII text are in no URL, and a host has no percent sign
either, behind which it would be named in another way.
-/

namespace ScamLens.UrlSyntax

open PythonText

/-- The components that say where a URL points. -/
structure Url where
  /-- Scheme. -/
  scheme : Text
  /-- User information, with its at sign. -/
  userinfo : Text
  /-- Host; brackets belong to it. -/
  host : Text
  /-- Port, if there is a colon for it. -/
  port : Option Text
  /-- Path. -/
  path : Text
  /-- What is behind the path, with its delimiter. -/
  rest : Text
  deriving DecidableEq

/-- Delimiters that end an authority. -/
def endsAuthority (c : Char) : Bool := c == '/' || c == '?' || c == '#'

/-- Delimiters that end a path. -/
def endsPath (c : Char) : Bool := c == '?' || c == '#'

/-- Characters that stand for themselves everywhere. -/
def isUnreserved (c : Char) : Bool :=
  c.isAlphanum || c == '-' || c == '.' || c == '_' || c == '~'

/-- Delimiters that a component may give a meaning of its own. -/
def isSubDelim (c : Char) : Bool :=
  ['!','$','&','\'','(',')','*','+',',',';','='].contains c

/-- Characters of a host name. -/
def isRegName (c : Char) : Bool := isUnreserved c || isSubDelim c

/-- Characters of user information. -/
def isUserinfoChar (c : Char) : Bool := isRegName c || c == ':' || c == '%'

/-- Characters behind the authority. -/
def isHierChar (c : Char) : Bool :=
  isUserinfoChar c || c == '@' || c == '/' || c == '?' || c == '#'

/-- A hexadecimal digit. -/
def isHexDigit (c : Char) : Bool :=
  c.isDigit || ('a' ≤ c && c ≤ 'f') || ('A' ≤ c && c ≤ 'F')

/-- Whether a text starts with two hexadecimal digits. -/
def startsWithByte : Text → Bool
  | high::low::_ => isHexDigit high && isHexDigit low
  | _ => false

/-- Two hexadecimal digits stand behind every percent sign. -/
def percentsOk : Text → Bool
  | [] => true
  | c::s => (c != '%' || startsWithByte s) && percentsOk s

/-- A scheme: a letter, then letters, digits and three signs. -/
def isScheme : Text → Bool
  | [] => false
  | c::s => c.isAlpha && s.all fun d => d.isAlphanum || d == '+' || d == '-' || d == '.'

/-- What may stand behind an authority, with one number sign at most. -/
def isHier (s : Text) : Bool := s.all isHierChar && s.count '#' ≤ 1 && percentsOk s

/-- An ASCII digit. -/
def isAsciiDigit (c : Char) : Bool := '0' ≤ c && c ≤ '9'

/-- The part of an authority behind its last at sign. -/
def hostPort (authority : Text) : Text := authority.rtakeWhile (· != '@')

/-- The part of an authority up to its last at sign. -/
def userinfoOf (authority : Text) : Text :=
  authority.take (authority.length-(hostPort authority).length)

/-- User information with its at sign, or none of both. -/
def isUserinfo (s : Text) : Bool := s.dropLast.all isUserinfoChar && percentsOk s

/-- Whether a text has a bracket, as only an IP literal may have. -/
def hasBracket (s : Text) : Bool := s.any fun c => c == '[' || c == ']'

/-- The port behind a host: nothing, or a colon and a number. -/
def splitPort : Text → Option (Option Text)
  | [] => some none
  | c::port => if c == ':' && port.all isAsciiDigit then some (some port) else none

/-- Host and port of the part of an authority behind the user information. -/
def splitHostPort (s : Text) : Option (Text×Option Text) :=
  if hasBracket s then
    let inside := s.takeWhile (· != ']')
    if s.head?=some '[' ∧ (inside.drop 1).all (fun c => isRegName c || c == ':') ∧ inside≠s then
      (splitPort (s.drop (inside.length+1))).map fun port => (inside++[']'],port)
    else none
  else if (s.takeWhile (· != ':')).all isRegName then
    (splitPort (s.dropWhile (· != ':'))).map fun port => (s.takeWhile (· != ':'),port)
  else none

/-- User information, host and port of an authority. -/
def splitAuthority (authority : Text) : Option (Text×Text×Option Text) :=
  if isUserinfo (userinfoOf authority) then
    (splitHostPort (hostPort authority)).map fun hp => (userinfoOf authority,hp)
  else none

/-- The components of a URL behind the two slashes. -/
def parseTail (scheme tail : Text) : Option Url :=
  let authority := tail.takeWhile (!endsAuthority ·)
  let hier := tail.dropWhile (!endsAuthority ·)
  if isScheme scheme && isHier hier then
    (splitAuthority authority).map fun parts => {
      scheme := scheme
      userinfo := parts.1
      host := parts.2.1
      port := parts.2.2
      path := hier.takeWhile (!endsPath ·)
      rest := hier.dropWhile (!endsPath ·) }
  else none

/-- The components of a text, none when it is not a URL with an authority. -/
def parseUrl (s : Text) : Option Url :=
  match s.dropWhile (· != ':') with
  | colon::slash::slash'::tail =>
    if colon = ':' ∧ slash = '/' ∧ slash' = '/' then parseTail (s.takeWhile (· != ':')) tail
    else none
  | _ => none

example : parseUrl "https://user@dns.example.com:443/dns-query?x".toList=some {
    scheme := "https".toList
    userinfo := "user@".toList
    host := "dns.example.com".toList
    port := some "443".toList
    path := "/dns-query".toList
    rest := "?x".toList } := by
  decide +kernel

/-- A text that a delimiter or its end follows is cut off there. -/
theorem takeWhile_append_stop (p : Char → Bool) {front back : Text} (hf : ∀ c∈front, p c=true)
    (hb : ∀ c∈back.head?, p c=false) :
    (front++back).takeWhile p=front ∧ (front++back).dropWhile p=back := by
  rw [List.takeWhile_append_of_pos hf,List.dropWhile_append_of_pos hf]
  cases back with
  | nil => exact ⟨List.append_nil front,rfl⟩
  | cons c back =>
    have hc : p c=false := hb c rfl
    rw [List.takeWhile_cons_of_neg (by rw [hc]; exact Bool.false_ne_true),
      List.dropWhile_cons_of_neg (by rw [hc]; exact Bool.false_ne_true)]
    exact ⟨List.append_nil front,rfl⟩

/-- What follows an authority without at signs extends its last part. -/
theorem hostPort_append {a b : Text} (hb : '@'∉b) : hostPort (a++b)=hostPort a++b := by
  rw [hostPort,List.rtakeWhile,List.reverse_append,List.takeWhile_append_of_pos,
    List.reverse_append,List.reverse_reverse]
  · rfl
  · intro c hc
    rw [bne_iff_ne]
    intro he
    exact hb (he ▸ List.mem_reverse.mp hc)

/-- So what is in front of the last at sign stays the same. -/
theorem userinfoOf_append {a b : Text} (hb : '@'∉b) : userinfoOf (a++b)=userinfoOf a := by
  have hle : (hostPort a).length ≤ a.length := (List.rtakeWhile_suffix _ _).length_le
  rw [userinfoOf,hostPort_append hb,List.length_append,List.length_append,
    Nat.add_sub_add_right,List.take_append_of_le_length (Nat.sub_le _ _),userinfoOf]

/-- A text without percent signs has none in a wrong place. -/
theorem percentsOk_of_not_mem {s : Text} (h : '%'∉s) : percentsOk s=true := by
  induction s with
  | nil => rfl
  | cons c s ih =>
    rw [List.mem_cons,not_or] at h
    rw [percentsOk,ih h.2,bne_iff_ne.mpr (Ne.symm h.1),Bool.true_or,Bool.and_true]

/-- In front of the percent signs of a text, one without them is no matter. -/
theorem percentsOk_append_left {a b : Text} (h : '%'∉a) : percentsOk (a++b)=percentsOk b := by
  induction a with
  | nil => rfl
  | cons c a ih =>
    rw [List.mem_cons,not_or] at h
    rw [List.cons_append,percentsOk,ih h.2,bne_iff_ne.mpr (Ne.symm h.1),Bool.true_or,Bool.true_and]

/-- What starts with another character completes no byte. -/
theorem startsWithByte_append (a : Text) {b : Text} (hb : ∀ c∈b.head?, isHexDigit c=false) :
    startsWithByte (a++b)=startsWithByte a := by
  match a,b with
  | [],[] => rfl
  | [],[_] => rfl
  | [],d::_::_ => exact Bool.and_eq_false_iff.mpr (Or.inl (hb d rfl))
  | [_],[] => rfl
  | [_],d::_ => exact Bool.and_eq_false_iff.mpr (Or.inr (hb d rfl))
  | _::_::_,_ => rfl

/-- Behind them neither, if it does not start with a hexadecimal digit. -/
theorem percentsOk_append_right {a b : Text} (h : '%'∉b) (hb : ∀ c∈b.head?, isHexDigit c=false) :
    percentsOk (a++b)=percentsOk a := by
  induction a with
  | nil => exact percentsOk_of_not_mem h
  | cons c a ih =>
    rw [List.cons_append,percentsOk,percentsOk,ih,startsWithByte_append a hb]

/-- Plain text in front of what follows an authority is no matter. -/
theorem isHier_append_left {a b : Text} (hall : a.all isHierChar=true) (hp : '%'∉a) (hn : '#'∉a) :
    isHier (a++b)=isHier b := by
  rw [isHier,List.all_append,hall,Bool.true_and,List.count_append,
    List.count_eq_zero_of_not_mem hn,Nat.zero_add,percentsOk_append_left hp,isHier]

/-- Behind it neither, if it does not start with a hexadecimal digit. -/
theorem isHier_append_right {a b : Text} (hall : b.all isHierChar=true) (hp : '%'∉b)
    (hn : '#'∉b) (hb : ∀ c∈b.head?, isHexDigit c=false) : isHier (a++b)=isHier a := by
  rw [isHier,List.all_append,hall,Bool.and_true,List.count_append,
    List.count_eq_zero_of_not_mem hn,Nat.add_zero,percentsOk_append_right hp hb,isHier]

/-- A URL whose authority ends where it should is parsed by its authority, if
what is behind it may stand there. -/
theorem parseUrl_append {scheme authority hier : Text} (hs : ':'∉scheme)
    (hok : isScheme scheme=true) (ha : ∀ c∈authority, endsAuthority c=false)
    (hh : ∀ c∈hier.head?, endsAuthority c=true) :
    parseUrl (scheme++"://".toList++authority++hier)=
      if isHier hier then (splitAuthority authority).map fun parts => {
        scheme := scheme
        userinfo := parts.1
        host := parts.2.1
        port := parts.2.2
        path := hier.takeWhile (!endsPath ·)
        rest := hier.dropWhile (!endsPath ·) }
      else none := by
  have hscheme : ∀ c∈scheme, (c != ':')=true := fun c hc =>
    bne_iff_ne.mpr fun he => hs (he ▸ hc)
  have hfirst := takeWhile_append_stop (· != ':') hscheme
    (show ∀ c∈("://".toList++(authority++hier)).head?, (c != ':')=false from
      fun c hc => by cases hc; rfl)
  have hsecond := takeWhile_append_stop (!endsAuthority ·)
    (show ∀ c∈authority, (!endsAuthority c)=true from fun c hc => by rw [ha c hc]; rfl)
    (show ∀ c∈hier.head?, (!endsAuthority c)=false from fun c hc => by rw [hh c hc]; rfl)
  have htext : scheme++"://".toList++authority++hier=
      scheme++("://".toList++(authority++hier)) := by
    simp only [List.append_assoc]
  have hparse : parseUrl (scheme++"://".toList++authority++hier)=
      parseTail scheme (authority++hier) := by
    rw [parseUrl,htext,hfirst.2,hfirst.1]
    exact if_pos ⟨rfl,rfl,rfl⟩
  rw [hparse,parseTail,hsecond.1,hsecond.2,hok,Bool.true_and]

end ScamLens.UrlSyntax
