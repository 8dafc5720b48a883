import ScamLens.PythonText

/-!
# The typosquat detector

Three rules run in order against the registrable label of a domain: homoglyph
normalization, bounded edit distance and a brand token at a word boundary.
Dictionaries are association lists in insertion order. The iteration order of
the two-element sets of candidate forms is a parameter of the detector.
-/

namespace ScamLens.Typosquat

open PythonText

/-- `HOMOGLYPHS.get(ch, ch)`. -/
def homoglyph (c : Char) : Char :=
  if c = '0' then 'o' else if c = '1' then 'l' else if c = '3' then 'e' else if c = '4' then 'a'
  else if c = '5' then 's' else if c = '$' then 's' else if c = '@' then 'a' else if c = '!' then 'i'
  else if c = 'i' then 'l' else c

/-- `MULTI_HOMOGLYPHS`, applied in this order before single characters. -/
def multiHomoglyphs : List (Text×Text) :=
  [("rn".toList,"m".toList),("vv".toList,"w".toList),("cl".toList,"d".toList)]

/-- `_normalize`. -/
def normalize (s : Text) : Text :=
  (multiHomoglyphs.foldl (fun out pair => replace pair.1 pair.2 out) s).map homoglyph

/-- Two-label public suffixes the registrable-label heuristics know. -/
def compoundSuffixes : List Text :=
  ["co.uk".toList,"com.my".toList,"com.au".toList,"com.sg".toList,"com.br".toList,
    "co.jp".toList,"co.kr".toList,"com.cn".toList]

/-- `_etld_plus_one_label`. -/
def etldPlusOneLabel (domain : Text) : Text :=
  let parts := domain.splitOn '.'
  let n := parts.length
  if n<2 then []
  else if join ['.'] (parts.drop (n-2))∈compoundSuffixes ∧ 3≤n then parts.getD (n-3) []
  else parts.getD (n-2) []

/-- The rest of one row of the edit-distance table: the cell to the left, the
cell diagonally above, and the previous row from the next cell on. -/
def nextRow (ca : Char) : Text → ℕ → ℕ → List ℕ → List ℕ
  | cb::b,left,diagonal,above::prev =>
    let cell := min (min (left+1) (above+1)) (diagonal+(if ca=cb then 0 else 1))
    cell::nextRow ca b cell above prev
  | _,_,_,_ => []

/-- The outer loop of `_levenshtein` from row `i` on, given the previous row. -/
def levenshteinRows (maxDistance : ℕ) (b : Text) : Text → ℕ → List ℕ → Option ℕ
  | [],_,prev => prev.getLast?
  | ca::a,i,prev =>
    let curr := i::nextRow ca b i (prev.headD 0) prev.tail
    if maxDistance < curr.foldl min i then none
    else levenshteinRows maxDistance b a (i+1) curr

/-- `_levenshtein`. -/
def levenshtein (a b : Text) (maxDistance : ℕ) : Option ℕ :=
  if maxDistance<(a.length-b.length)+(b.length-a.length) then none
  else if a=b then some 0
  else levenshteinRows maxDistance b a 1 (List.range (b.length+1))

/-- `c in "-_"`. -/
def isBoundary (c : Char) : Bool := c == '-' || c == '_'

/-- The loop of `_contains_at_boundary` from the given position on; none when
the fuel is used up. -/
def containsAtBoundaryFrom (label brand : Text) : ℕ → ℕ → Option Bool
  | 0,_ => none
  | fuel+1,idx =>
    match find label brand idx with
    | none => some false
    | some i =>
      let leftOk := i==0 || (label[i-1]?).any isBoundary
      let stop := i+brand.length
      let rightOk := stop==label.length || (label[stop]?).any isBoundary
      if leftOk && rightOk then some true
      else containsAtBoundaryFrom label brand fuel (i+1)

/-- `_contains_at_boundary`. Every round moves past one position of the label,
so one more round than there are positions ends the search. -/
def containsAtBoundary (label brand : Text) : Bool :=
  if label=brand then false
  else (containsAtBoundaryFrom label brand (label.length+2) 0).getD false

/-- `TyposquatHit`. -/
structure TyposquatHit where
  /-- Display name of the imitated brand. -/
  brand : Text
  /-- Its official domain. -/
  brandDomain : Text
  /-- Which rule matched, in words. -/
  reason : Text
  /-- Edit distance, 0 for the other two rules. -/
  distance : ℕ
  deriving DecidableEq

/-- The two loops that iterate over the set of candidate forms. -/
inductive CheckStage where
  | editDistance
  | brandToken
  deriving DecidableEq

/-- `TyposquatDetector`, with the iteration order its process gives to the
two-element sets of candidate forms. -/
structure TyposquatDetector where
  /-- `_brands`: official domain to brand name, in insertion order. -/
  brands : List (Text×Text)
  /-- Whether a loop visits the normalized form before the raw one. -/
  normalizedFirst : CheckStage → Text → Text → Bool

/-- `d[key] = value` on a dictionary in insertion order. -/
def dictSet {ν : Type*} (key : Text) (value : ν) : List (Text×ν) → List (Text×ν)
  | [] => [(key,value)]
  | entry::rest => if entry.1=key then (key,value)::rest else entry::dictSet key value rest

/-- A dictionary comprehension over a list of key-value pairs. -/
def dictOf {ν : Type*} (pairs : List (Text×ν)) : List (Text×ν) :=
  pairs.foldl (fun d pair => dictSet pair.1 pair.2 d) []

/-- `TyposquatDetector.__init__` on a brand map. -/
def TyposquatDetector.init (d : TyposquatDetector) (brandMap : List (Text×Text)) :
    TyposquatDetector :=
  {d with brands := brandMap}

/-- `_brand_labels`, computed from the brand map by `__init__`: label to
official domain and brand name. -/
def TyposquatDetector.brandLabels (d : TyposquatDetector) : List (Text×Text×Text) :=
  dictOf (d.brands.map fun entry => (etldPlusOneLabel entry.1,entry.1,entry.2))

/-- The two forms of a label in the order a loop visits them. -/
def candidates (d : TyposquatDetector) (stage : CheckStage) (label normalized : Text) : List Text :=
  if normalized=label then [label]
  else if d.normalizedFirst stage label normalized then [normalized,label]
  else [label,normalized]

/-- The distance allowed for a brand label. -/
def maxEdits (brandLabel : Text) : ℕ := if 7≤brandLabel.length then 2 else 1

/-- The edit-distance rule for one brand label and one candidate form. -/
def editHit (entry : Text×Text×Text) (candidate : Text) : Option TyposquatHit :=
  let maxD := maxEdits entry.1
  if maxD<(entry.1.length-candidate.length)+(candidate.length-entry.1.length) then none
  else match levenshtein candidate entry.1 maxD with
    | none => none
    | some d =>
      if 0<d ∧ d ≤ maxD then some {
          brand := entry.2.2
          brandDomain := entry.2.1
          reason := "edit distance ".toList++ofInt d++" from ".toList++entry.2.1
          distance := d }
      else none

/-- The boundary-token rule for one candidate form and one brand label. -/
def tokenHit (candidate : Text) (entry : Text×Text×Text) : Option TyposquatHit :=
  if entry.1.length<5 then none
  else if containsAtBoundary candidate entry.1 then some {
      brand := entry.2.2
      brandDomain := entry.2.1
      reason := "contains brand '".toList++entry.2.2++"' in non-official domain".toList
      distance := 0 }
  else none

/-- `TyposquatDetector.check` from the registrable label on. -/
def checkLabel (d : TyposquatDetector) (label : Text) : Option TyposquatHit :=
  if label=[] then none
  else if (d.brandLabels.lookup label).isSome then none
  else
    let normalized := normalize label
    match (if normalized=label then none else d.brandLabels.lookup normalized) with
    | some (canonical,brand) => some {
        brand := brand
        brandDomain := canonical
        reason := "homoglyph of ".toList++brand++" (".toList++label++" looks like ".toList++
          normalized++")".toList
        distance := 0 }
    | none =>
      match d.brandLabels.findSome? fun entry =>
          (candidates d .editDistance label normalized).findSome? (editHit entry) with
      | some hit => some hit
      | none =>
        (candidates d .brandToken label normalized).findSome? fun candidate =>
          d.brandLabels.findSome? (tokenHit candidate)

/-- `TyposquatDetector.check` with any function in the place of `str.lower`. -/
def checkWith (lowerText : Text → Text) (d : TyposquatDetector) (domain : Text) :
    Option TyposquatHit :=
  checkLabel d (etldPlusOneLabel (stripChar '.' (lowerText domain)))

/-- `TyposquatDetector.check`. -/
def check (d : TyposquatDetector) (domain : Text) : Option TyposquatHit := checkWith lower d domain

example : (check ⟨[("paypal.com".toList,"PayPal".toList)],fun _ _ _ => false⟩
    "paypa1.com".toList).map (·.distance)=some 0 := by decide

end ScamLens.Typosquat
