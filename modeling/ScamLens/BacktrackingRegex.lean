import Mathlib.Data.List.Forall2
import Mathlib.Data.List.Infix

/-!
# Backtracking regular expressions

A pattern maps a text to the list of texts that a match may leave over, in
the order a backtracking matcher tries them; the first one is the match it
reports. Repetition is of one symbol class, greedy or lazy, which keeps every
function structurally recursive in the pattern and the text.
-/

namespace ScamLens.BacktrackingRegex

variable {α : Type*}

/-- Patterns over an alphabet. -/
inductive Regex (α : Type*) where
  /-- The empty match. -/
  | empty
  /-- One symbol of a class. -/
  | symbol (p : α → Bool)
  /-- One match after the other. -/
  | seq (first second : Regex α)
  /-- Ordered choice. -/
  | alt (first second : Regex α)
  /-- Any number of symbols of a class, as many as possible first. -/
  | star (p : α → Bool)
  /-- Any number of symbols of a class, as few as possible first. -/
  | lazyStar (p : α → Bool)

/-- What a greedy repetition may leave over, shortest first. -/
def starEnds (p : α → Bool) : List α → List (List α)
  | [] => [[]]
  | c::s => if p c then starEnds p s++[c::s] else [c::s]

/-- What a lazy repetition may leave over, longest first. -/
def lazyStarEnds (p : α → Bool) : List α → List (List α)
  | [] => [[]]
  | c::s => (c::s)::if p c then lazyStarEnds p s else []

namespace Regex

/-- What a match at the start of the text may leave over, in matching order. -/
def ends : Regex α → List α → List (List α)
  | empty,s => [s]
  | symbol _,[] => []
  | symbol p,c::s => if p c then [s] else []
  | seq first second,s => (first.ends s).flatMap second.ends
  | alt first second,s => first.ends s++second.ends s
  | star p,s => starEnds p s
  | lazyStar p,s => lazyStarEnds p s

/-- The optional pattern, preferring to match. -/
def opt (r : Regex α) : Regex α := alt r empty

/-- At least one symbol of a class. -/
def plus (p : α → Bool) : Regex α := seq (symbol p) (star p)

/-- Up to the given number of symbols of a class, as many as possible first. -/
def upTo (p : α → Bool) : ℕ → Regex α
  | 0 => empty
  | n+1 => opt (seq (symbol p) (upTo p n))

/-- What at least one match of a pattern without empty matches may leave over,
in a text of at most the given length. -/
def plusEnds (r : Regex α) : ℕ → List α → List (List α)
  | 0,_ => []
  | n+1,s => (r.ends s).flatMap fun rest => plusEnds r n rest++[rest]

/-- The listed patterns one after the other. -/
def seqs (rs : List (Regex α)) : Regex α := rs.foldr seq empty

/-- One symbol of each of the listed classes. -/
def classes (ps : List (α → Bool)) : Regex α := seqs (ps.map symbol)

/-- The first of the listed patterns that lets the rest match. -/
def alts : List (Regex α) → Regex α
  | [] => symbol fun _ => false
  | [r] => r
  | r::rs => alt r (alts rs)

/-- Whether the pattern matches somewhere in the text. -/
def search (r : Regex α) (s : List α) : Bool := s.tails.any fun tail => !(r.ends tail).isEmpty

/-- Number of matches that do not overlap, from left to right, of a pattern
without empty matches. The counter skips what is left of the last match. -/
def countFrom (r : Regex α) : ℕ → List α → ℕ
  | _,[] => 0
  | skip+1,_::s => countFrom r skip s
  | 0,c::s =>
    match (r.ends (c::s)).head? with
    | some rest => 1+countFrom r (s.length-rest.length) s
    | none => countFrom r 0 s

/-- Number of matches that do not overlap. -/
def count (r : Regex α) (s : List α) : ℕ := countFrom r 0 s

/-- The matches that do not overlap, from left to right, of a pattern without
empty matches. The counter skips what is left of the last match. -/
def findAllFrom (r : Regex α) : ℕ → List α → List (List α)
  | _,[] => []
  | skip+1,_::s => findAllFrom r skip s
  | 0,c::s =>
    match (r.ends (c::s)).head? with
    | some rest => (c::s).take (s.length+1-rest.length)::
        findAllFrom r (s.length-rest.length) s
    | none => findAllFrom r 0 s

/-- The matches that do not overlap. -/
def findAll (r : Regex α) (s : List α) : List (List α) := findAllFrom r 0 s

/-- Replace every match of a pattern without empty matches. The counter skips
what is left of the last match. -/
def subFrom (r : Regex α) (replacement : List α) : ℕ → List α → List α
  | _,[] => []
  | skip+1,_::s => subFrom r replacement skip s
  | 0,c::s =>
    match (r.ends (c::s)).head? with
    | some rest => replacement++subFrom r replacement (s.length-rest.length) s
    | none => c::subFrom r replacement 0 s

/-- Replace every match, from left to right. -/
def sub (r : Regex α) (replacement s : List α) : List α := subFrom r replacement 0 s

/-- A pattern of symbol classes reads symbols of them. -/
theorem mem_ends_classes {ps : List (α → Bool)} {s rest : List α}
    (h : rest∈(classes ps).ends s) :
    ∃ front, s=front++rest ∧ List.Forall₂ (fun p c => p c=true) ps front := by
  induction ps generalizing s with
  | nil => exact ⟨[],(List.mem_singleton.mp h).symm,.nil⟩
  | cons p ps ih =>
    obtain ⟨middle,hmiddle,hrest⟩ := List.mem_flatMap.mp h
    cases s with
    | nil => exact absurd hmiddle List.not_mem_nil
    | cons c s =>
      rw [ends] at hmiddle
      split at hmiddle
      · rename_i hc
        obtain ⟨front,hs,hall⟩ := ih (List.mem_singleton.mp hmiddle ▸ hrest)
        exact ⟨c::front,by rw [hs,List.cons_append],.cons hc hall⟩
      · exact absurd hmiddle List.not_mem_nil

/-- An ordered choice matches as one of its patterns does. -/
theorem mem_ends_alts {rs : List (Regex α)} {s rest : List α}
    (h : rest∈(alts rs).ends s) :
    ∃ r∈rs, rest∈r.ends s := by
  induction rs with
  | nil =>
    cases s with
    | nil => exact absurd h List.not_mem_nil
    | cons c s => exact absurd h List.not_mem_nil
  | cons r rs ih =>
    cases rs with
    | nil => exact ⟨r,List.mem_cons_self,h⟩
    | cons r' rs =>
      rcases List.mem_append.mp h with h|h
      · exact ⟨r,List.mem_cons_self,h⟩
      · obtain ⟨found,hfound,hrest⟩ := ih h
        exact ⟨found,List.mem_cons_of_mem _ hfound,hrest⟩

/-- Symbols of the listed classes are read, and no other ones. -/
theorem ends_classes {ps : List (α → Bool)} {s : List α}
    (h : List.Forall₂ (fun p c => p c=true) ps s) (rest : List α) :
    (classes ps).ends (s++rest)=[rest] := by
  induction h with
  | nil => rfl
  | cons hc _ ih =>
    rw [classes,List.map_cons,seqs,List.foldr_cons,ends,List.cons_append,ends,if_pos hc,
      List.flatMap_singleton]
    exact ih

end Regex

end ScamLens.BacktrackingRegex
