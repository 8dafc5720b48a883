import ScamLens.PythonText
import ScamLens.RegexLanguages

/-!
# Domains of the lookup endpoints

The quick and the deep lookup endpoint normalize the domain of their path and
match it against one expression, of which each keeps a copy. A dollar sign of
the expression also matches before a line feed that ends the text.
-/

namespace ScamLens.LookupDomains

open BacktrackingRegex PythonText

/-- `[a-z]` -/
def isLetter (c : Char) : Bool := 'a' ≤ c && c ≤ 'z'

/-- `[a-z0-9]` -/
def isAlnum (c : Char) : Bool := isLetter c || ('0' ≤ c && c ≤ '9')

/-- `[a-z0-9-]` -/
def isAlnumDash (c : Char) : Bool := isAlnum c || c == '-'

/-- `.` without the flag that lets it match a line feed. -/
def isDot (c : Char) : Bool := c != '\n'

/-- `$` -/
def atEnd (s : Text) : Bool := s.isEmpty || s == ['\n']

/-- `[a-z0-9](?:[a-z0-9-]{0,61}[a-z0-9])?\.` -/
def labelPattern : Regex Char :=
  Regex.seqs [.symbol isAlnum,
    Regex.opt (.seq (Regex.upTo isAlnumDash 61) (.symbol isAlnum)),
    .symbol (· == '.')]

/-- `[a-z]{2,}` -/
def tldPattern : Regex Char := .seq (.symbol isLetter) (Regex.plus isLetter)

/-- `(?=.{1,253}$)` -/
def lengthAhead (s : Text) : Bool :=
  ((Regex.seq (.symbol isDot) (Regex.upTo isDot 252)).ends s).any atEnd

/-- `DOMAIN_RE.match(s)` -/
def domainReMatch (s : Text) : Bool :=
  lengthAhead s && (Regex.plusEnds labelPattern s.length s).any fun rest =>
    (tldPattern.ends rest).any atEnd

/-- The normalized domain of a path segment, none when it is not accepted:
`_norm` and the first lines of `check`. -/
def lookupDomain (domain : Text) : Option Text :=
  let normalized := rstripChar '.' (lower (strip domain))
  if domainReMatch normalized then some normalized else none

/-- A match of a label ends with its dot. -/
theorem dot_mem_of_labelPattern {s rest : Text} (h : rest∈labelPattern.ends s) : '.'∈s := by
  obtain ⟨middle,hmiddle,hrest⟩ := List.mem_flatMap.mp h
  obtain ⟨behind,hbehind,hdot⟩ := List.mem_flatMap.mp hrest
  obtain ⟨last,hlast,-⟩ := List.mem_flatMap.mp hdot
  cases behind with
  | nil => exact absurd hlast List.not_mem_nil
  | cons c behind =>
    rw [Regex.ends] at hlast
    split at hlast
    · rename_i hc
      have hsuffix := (Regex.suffix_of_mem_ends hbehind).trans (Regex.suffix_of_mem_ends hmiddle)
      exact hsuffix.subset (beq_iff_eq.mp hc ▸ List.mem_cons_self)
    · exact absurd hlast List.not_mem_nil

/-- An accepted domain has a dot. -/
theorem dot_mem_of_lookupDomain {domain normalized : Text}
    (h : lookupDomain domain=some normalized) : '.'∈normalized := by
  rw [lookupDomain,Option.ite_none_right_eq_some] at h
  obtain ⟨hmatch,hd⟩ := h
  rw [Option.some.inj hd,domainReMatch,Bool.and_eq_true,List.any_eq_true] at hmatch
  obtain ⟨rest,hrest,-⟩ := hmatch.2
  cases hlength : normalized.length with
  | zero =>
    rw [hlength] at hrest
    exact absurd hrest List.not_mem_nil
  | succ n =>
    rw [hlength] at hrest
    obtain ⟨first,hfirst,-⟩ := List.mem_flatMap.mp hrest
    exact dot_mem_of_labelPattern hfirst

example : lookupDomain " Login.Pay-Pal.Example. ".toList=some "login.pay-pal.example".toList := by
  decide +kernel

example : lookupDomain "pay_pal.example".toList=none := by decide +kernel

end ScamLens.LookupDomains
