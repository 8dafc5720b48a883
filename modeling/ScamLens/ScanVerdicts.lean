import Mathlib.Order.Basic
import ScamLens.VerdictCache

/-!
# Scan verdicts

The normalized answer of the AI clients, and the three severities it may have.
-/

namespace ScamLens.ScanVerdicts

open PythonText VerdictCache

/-- The severities a scan may end in. -/
inductive ScanClass where
  | safe
  | suspicious
  | scam
  deriving DecidableEq,Repr

/-- Rank of a severity: safe below suspicious below scam. -/
def ScanClass.rank : ScanClass → ℕ
  | .safe => 0
  | .suspicious => 1
  | .scam => 2

/-- The verdict string of a severity. -/
def ScanClass.kind : ScanClass → VerdictKind
  | .safe => .safe
  | .suspicious => .suspicious
  | .scam => .scam

/-- The verdict string of a severity as text. -/
def ScanClass.text : ScanClass → Text
  | .safe => "safe".toList
  | .suspicious => "suspicious".toList
  | .scam => "scam".toList

/-- `ScanVerdict`. -/
structure ScanVerdict where
  /-- Severity. -/
  verdict : ScanClass
  /-- Risk score. -/
  riskScore : ℤ
  /-- Confidence. -/
  confidence : ℤ
  /-- Reasons, most important first. -/
  reasons : List Text
  /-- Imitated brand. -/
  mimicsBrand : Option Text
  /-- Model that answered. -/
  model : Text
  deriving DecidableEq

/-- `ScanVerdict.primary_reason`. -/
def ScanVerdict.primaryReason (v : ScanVerdict) : Text := v.reasons.headD v.verdict.text

/-- Rank determines the severity. -/
theorem rank_injective {a b : ScanClass} (h : a.rank=b.rank) : a=b := by
  cases a <;> cases b <;> first | rfl | cases h

/-- Equal ranks are equal severities. -/
theorem rank_inj {a b : ScanClass} : a.rank=b.rank ↔ a=b := ⟨rank_injective,congrArg _⟩

/-- Only safe has rank zero. -/
theorem rank_eq_zero_iff {a : ScanClass} : a.rank=0 ↔ a=.safe :=
  ⟨fun h => rank_injective h,fun h => h ▸ rfl⟩

end ScamLens.ScanVerdicts
