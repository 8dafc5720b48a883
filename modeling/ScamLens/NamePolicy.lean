import Mathlib.Data.Set.Basic
import ScamLens.VerdictCache

/-!
# What the resolver is for: a policy on names

Names inherit the entries of their chain, nearest first. A policy exempts
bypassed names and names with a whitelisted chain member, and sinkholes any
other name that is condemned: by a blocklisted chain member, by the nearest
verdict on its chain, or, when that verdict does not clear it, by the squat
detector. Names, chains and verdicts are arbitrary here.
-/

namespace ScamLens.NamePolicy

open VerdictCache

variable {N : Type*}

/-- The data one decision depends on. -/
structure Policy (N : Type*) where
  /-- Names whose entries a name inherits, nearest first. -/
  chain : N → List N
  /-- Names that are never looked at. -/
  bypassed : N → Prop
  /-- Names to forward unseen. -/
  whitelist : Set N
  /-- Names to sinkhole. -/
  blocklist : Set N
  /-- The verdict known about a name, if any. -/
  verdict : N → Option VerdictKind
  /-- Names that imitate a brand. -/
  squats : N → Prop

namespace Policy

variable (P : Policy N)

/-- The nearest verdict on a name's chain. -/
def nearest (n : N) : Option VerdictKind := (P.chain n).findSome? P.verdict

/-- Names that no block can reach. -/
def Exempt (n : N) : Prop := P.bypassed n ∨ ∃ m∈P.chain n, m∈P.whitelist

/-- Names for which there is a reason to block. -/
def Condemned (n : N) : Prop :=
  (∃ m∈P.chain n, m∈P.blocklist) ∨ (∃ kind, P.nearest n=some kind ∧ kind.isBlocking=true) ∨
    (P.nearest n≠some .safe ∧ P.squats n)

/-- The decision: sinkhole the condemned names that are not exempt. -/
def Sinkholes (n : N) : Prop := ¬P.Exempt n ∧ P.Condemned n

variable {P}

/-- A name that is not condemned on any count is not sinkholed. -/
theorem not_sinkholes_of {n : N} (hblock : ∀ m∈P.chain n, m∉P.blocklist)
    (hnear : ∀ kind, P.nearest n=some kind → kind.isBlocking=false)
    (hsquat : P.nearest n=some .safe ∨ ¬P.squats n) : ¬P.Sinkholes n := by
  intro h
  rcases h.2 with ⟨m,hm,hb⟩|⟨kind,hk,hb⟩|⟨hs,hq⟩
  · exact hblock m hm hb
  · exact Bool.false_ne_true ((hnear kind hk).symm.trans hb)
  · exact hsquat.elim hs fun hn => hn hq

/-- The nearest verdict is that of the first chain member that has one. -/
theorem nearest_eq_of_split {n p : N} {near far : List N} {kind : VerdictKind}
    (hchain : P.chain n=near++p::far) (hnear : ∀ m∈near, P.verdict m=none)
    (hp : P.verdict p=some kind) : P.nearest n=some kind := by
  have hn : near.findSome? P.verdict=none := List.findSome?_eq_none_iff.mpr hnear
  rw [nearest,hchain,List.findSome?_append,hn,Option.none_or,List.findSome?_cons,hp]

/-- The nearest verdict is the only one in a front part of the chain that has one. -/
theorem nearest_eq_of_only {n : N} {near far : List N} {kind : VerdictKind}
    (hchain : P.chain n=near++far) (honly : ∀ m∈near, ∀ k, P.verdict m=some k → k=kind)
    (hsome : ∃ m∈near, P.verdict m≠none) : P.nearest n=some kind := by
  obtain ⟨m,hm,hv⟩ := hsome
  cases hn : near.findSome? P.verdict with
  | none => exact absurd (List.findSome?_eq_none_iff.mp hn m hm) hv
  | some k =>
    obtain ⟨w,hw,hk⟩ := List.exists_of_findSome?_eq_some hn
    rw [nearest,hchain,List.findSome?_append,hn,honly w hw k hk]
    rfl

/-- A nearest verdict belongs to a chain member. -/
theorem exists_of_nearest {n : N} {kind : VerdictKind} (h : P.nearest n=some kind) :
    ∃ m∈P.chain n, P.verdict m=some kind :=
  List.exists_of_findSome?_eq_some h

end Policy

end ScamLens.NamePolicy
