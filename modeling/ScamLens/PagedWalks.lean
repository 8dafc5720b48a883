import Mathlib.Data.List.Infix
import Mathlib.Data.List.Nodup
import Mathlib.Data.Nat.Notation

/-!
# Walks over pages with a cursor

A client asks a server for one page after another, each behind the cursor of the
page before, and visits the items of a page before it asks for the next one.
While new items arrive in front of a listing, the items visited are still the
first ones of the listing as it was, in their order and none twice.
-/

namespace ScamLens.PagedWalks

/-- What comes back for a page. -/
inductive Answer (ι κ : Type*) where
  /-- The walk is over. -/
  | ends
  /-- The walk raises. -/
  | raises
  /-- Items, and the cursor behind them unless they are the last. -/
  | page (items : List ι) (next : Option κ)

/-- How a loop is left. -/
inductive Outcome where
  /-- It got to its end. -/
  | done
  /-- A break. -/
  | stopped
  /-- An exception. -/
  | raised
  deriving DecidableEq

section Walk

variable {σ ι κ : Type*}

/-- The loop over the items of a page. -/
def walkItems (visit : ι → σ → σ×Outcome) : List ι → σ → σ×Outcome
  | [],s => (s,.done)
  | item::items,s =>
    let out := visit item s
    match out.2 with
    | .done => walkItems visit items out.1
    | .stopped => out
    | .raised => out

/-- The loop over at most so many pages, from a cursor on. -/
def walkPages (ask : Option κ → σ → σ×Answer ι κ) (visit : ι → σ → σ×Outcome) :
    ℕ → Option κ → σ → σ×Outcome
  | 0,_,s => (s,.done)
  | pages+1,after,s =>
    let answered := ask after s
    match answered.2 with
    | .ends => (answered.1,.done)
    | .raises => (answered.1,.raised)
    | .page items next =>
      let out := walkItems visit items answered.1
      match out.2,next with
      | .done,none => out
      | .done,some cursor => walkPages ask visit pages (some cursor) out.1
      | .stopped,_ => out
      | .raised,_ => out

variable {ask : Option κ → σ → σ×Answer ι κ} {visit : ι → σ → σ×Outcome}

/-- What every visit keeps, the loop over the items keeps. -/
theorem walkItems_keeps {P : σ → Prop} (hvisit : ∀ item s, P s → P (visit item s).1)
    (items : List ι) {s : σ} (hs : P s) : P (walkItems visit items s).1 := by
  induction items generalizing s with
  | nil => exact hs
  | cons item items ih =>
    have hfirst := hvisit item s hs
    rw [walkItems]
    split
    · exact ih hfirst
    · exact hfirst
    · exact hfirst

/-- What every visit keeps, and every page keeps at the price of one page less,
the walk keeps. -/
theorem walkPages_keeps {P : ℕ → σ → Prop}
    (hask : ∀ pages after s, P (pages+1) s → P pages (ask after s).1)
    (hvisit : ∀ pages item s, P pages s → P pages (visit item s).1) (pages : ℕ)
    (after : Option κ) {s : σ} (hs : P pages s) :
    ∃ left, P left (walkPages ask visit pages after s).1 := by
  induction pages generalizing after s with
  | zero => exact ⟨0,hs⟩
  | succ pages ih =>
    have hasked := hask pages after s hs
    rw [walkPages]
    dsimp only
    cases (ask after s).2 with
    | ends => exact ⟨pages,hasked⟩
    | raises => exact ⟨pages,hasked⟩
    | page items next =>
      have hitems := walkItems_keeps (hvisit pages) items hasked
      dsimp only
      split
      · exact ⟨pages,hitems⟩
      · exact ih _ hitems
      · exact ⟨pages,hitems⟩
      · exact ⟨pages,hitems⟩

/-- A walk whose requests and visits do not raise or break off gets to its end. -/
theorem walkPages_done (hask : ∀ after s, (ask after s).2≠.raises)
    (hvisit : ∀ item s, (visit item s).2=.done) (pages : ℕ) (after : Option κ) (s : σ) :
    (walkPages ask visit pages after s).2=.done := by
  have hitems (items : List ι) (s : σ) : (walkItems visit items s).2=.done := by
    induction items generalizing s with
    | nil => rfl
    | cons item items ih =>
      rw [walkItems,hvisit item s]
      exact ih _
  induction pages generalizing after s with
  | zero => rfl
  | succ pages ih =>
    rw [walkPages]
    dsimp only
    cases hanswer : (ask after s).2 with
    | ends => rfl
    | raises => exact absurd hanswer (hask after s)
    | page items next =>
      have hdone := hitems items (ask after s).1
      dsimp only
      rw [hdone]
      cases next with
      | none => exact hdone
      | some cursor => exact ih _ _

end Walk

section Listing

variable {σ ι κ : Type*} [DecidableEq κ] (key : ι → κ) (limit : ℕ)

/-- The items of a listing behind a cursor. -/
def behind (after : Option κ) (listing : List ι) : List ι :=
  match after with
  | none => listing
  | some cursor => (listing.dropWhile fun item => key item≠cursor).drop 1

/-- The page of a listing behind a cursor: its cursor is the key of its last
item, unless nothing comes behind it. -/
def pageBehind (after : Option κ) (listing : List ι) : Answer ι κ :=
  let rest := behind key after listing
  .page (rest.take limit)
    (if rest.length≤limit then none else ((rest.take limit).getLast?).map key)

variable {key limit}

/-- Behind the cursor of an item come the items behind it, whatever has arrived
in front. -/
theorem behind_append {front back : List ι} {item : ι}
    (h : ((front++item::back).map key).Nodup) :
    behind key (some (key item)) (front++item::back)=back := by
  have hfront : ∀ other∈front, decide (key other≠key item)=true := by
    intro other hother
    rw [List.map_append,List.nodup_append] at h
    have hne := h.2.2 (key other) (List.mem_map_of_mem hother) (key item)
      (List.mem_map_of_mem List.mem_cons_self)
    exact decide_eq_true hne
  rw [behind,List.dropWhile_append_of_pos hfront,List.dropWhile_cons_of_neg (by simp),
    List.drop_one,List.tail_cons]

/-- A server that lists items newest first, while a client walks. -/
structure Listed (key : ι → κ) (limit : ℕ) (listing seen : σ → List ι)
    (ask : Option κ → σ → σ×Answer ι κ) (visit : ι → σ → σ×Outcome) : Prop where
  /-- A page has room for an item. -/
  limit_pos : 0<limit
  /-- No two items share a key. -/
  nodup : ∀ s, ((listing s).map key).Nodup
  /-- Pages are of the listing. -/
  answer : ∀ after s, (ask after s).2=pageBehind key limit after (listing s)
  /-- What arrives meanwhile, arrives in front. -/
  ask_listing : ∀ after s, ∃ new, listing (ask after s).1=new++listing s
  /-- Asking for a page visits nothing. -/
  ask_seen : ∀ after s, seen (ask after s).1=seen s
  /-- The same while an item is visited. -/
  visit_listing : ∀ item s, ∃ new, listing (visit item s).1=new++listing s
  /-- A visit that is not broken off is one of the item. -/
  visit_seen : ∀ item s, (visit item s).2≠.stopped → seen (visit item s).1=seen s++[item]
  /-- A visit that is broken off is none. -/
  stopped_seen : ∀ item s, (visit item s).2=.stopped → seen (visit item s).1=seen s

variable {listing seen : σ → List ι} {ask : Option κ → σ → σ×Answer ι κ}
  {visit : ι → σ → σ×Outcome}

/-- The items of a page are visited in their order, up to a break. -/
theorem Listed.walkItems (h : Listed key limit listing seen ask visit) (items : List ι) (s : σ) :
    (∃ part, part <+: items ∧ seen (PagedWalks.walkItems visit items s).1=seen s++part ∧
      ((PagedWalks.walkItems visit items s).2=.done → part=items)) ∧
    ∃ new, listing (PagedWalks.walkItems visit items s).1=new++listing s := by
  induction items generalizing s with
  | nil => exact ⟨⟨[],List.prefix_refl [],(List.append_nil _).symm,fun _ => rfl⟩,[],rfl⟩
  | cons item items ih =>
    have hlisting := h.visit_listing item s
    rw [PagedWalks.walkItems]
    cases hout : (visit item s).2 with
    | done =>
      have hseen := h.visit_seen item s (by rw [hout]; decide)
      obtain ⟨⟨part,hpart,hrest,hdone⟩,new,hnew⟩ := ih (visit item s).1
      obtain ⟨new',hnew'⟩ := hlisting
      refine ⟨⟨item::part,List.cons_prefix_cons.mpr ⟨rfl,hpart⟩,?_,fun hend => ?_⟩,
        new++new',?_⟩
      · rw [hrest,hseen,List.append_assoc,List.singleton_append]
      · rw [hdone hend]
      · rw [hnew,hnew',List.append_assoc]
    | stopped =>
      have hseen := h.stopped_seen item s hout
      dsimp only
      refine ⟨⟨[],List.nil_prefix,?_,fun hend => ?_⟩,hlisting⟩
      · rw [hseen,List.append_nil]
      · rw [hout] at hend
        cases hend
    | raised =>
      have hseen := h.visit_seen item s (by rw [hout]; decide)
      dsimp only
      refine ⟨⟨[item],List.cons_prefix_cons.mpr ⟨rfl,List.nil_prefix⟩,hseen,fun hend => ?_⟩,
        hlisting⟩
      rw [hout] at hend
      cases hend

/-- The cursor of what is in front of the rest of a listing. -/
def AtCursor (key : ι → κ) (after : Option κ) (front : List ι) : Prop :=
  (after=none ∧ front=[]) ∨ ∃ init item, front=init++[item] ∧ after=some (key item)

/-- What comes behind a cursor is the rest. -/
theorem AtCursor.behind {after : Option κ} {front rest : List ι} (h : AtCursor key after front)
    (hnodup : ((front++rest).map key).Nodup) : PagedWalks.behind key after (front++rest)=rest := by
  rcases h with ⟨rfl,rfl⟩ | ⟨init,item,rfl,rfl⟩
  · rfl
  · rw [List.append_assoc,List.singleton_append] at hnodup ⊢
    exact behind_append hnodup

/-- From a cursor on, the walk visits the rest in order, as far as its pages go
or up to a break. -/
theorem Listed.walkPages (h : Listed key limit listing seen ask visit) (pages : ℕ)
    {after : Option κ} {s : σ} {front rest : List ι} (hcursor : AtCursor key after front)
    (hlisting : listing s=front++rest) :
    ∃ part, part <+: rest.take (pages*limit) ∧
      seen (PagedWalks.walkPages ask visit pages after s).1=seen s++part ∧
      ((PagedWalks.walkPages ask visit pages after s).2=.done →
        part=rest.take (pages*limit)) := by
  induction pages generalizing after s front rest with
  | zero =>
    rw [Nat.zero_mul,List.take_zero]
    exact ⟨[],List.nil_prefix,(List.append_nil _).symm,fun _ => rfl⟩
  | succ pages ih =>
    have hnodup := h.nodup s
    rw [hlisting] at hnodup
    have hanswer := h.answer after s
    rw [hlisting,pageBehind,hcursor.behind hnodup] at hanswer
    obtain ⟨⟨part,hpart,hseen,hdone⟩,new,hnew⟩ := h.walkItems (rest.take limit) (ask after s).1
    obtain ⟨new',hnew'⟩ := h.ask_listing after s
    rw [h.ask_seen] at hseen
    have hsplit : rest.take ((pages+1)*limit)=
        rest.take limit++(rest.drop limit).take (pages*limit) := by
      rw [Nat.add_mul,Nat.one_mul,Nat.add_comm,List.take_add]
    have hfirst : part <+: rest.take ((pages+1)*limit) := by
      rw [hsplit]
      exact hpart.trans (List.prefix_append _ _)
    rw [PagedWalks.walkPages,hanswer]
    dsimp only
    cases hout : (PagedWalks.walkItems visit (rest.take limit) (ask after s).1).2 with
    | stopped =>
      refine ⟨part,hfirst,hseen,fun hend => ?_⟩
      rw [hout] at hend
      cases hend
    | raised =>
      refine ⟨part,hfirst,hseen,fun hend => ?_⟩
      rw [hout] at hend
      cases hend
    | done =>
      have hitems := hdone hout
      by_cases hlast : rest.length≤limit
      · rw [if_pos hlast]
        refine ⟨part,hfirst,hseen,fun _ => ?_⟩
        rw [hitems,hsplit,List.drop_eq_nil_of_le hlast,List.take_nil,List.append_nil]
      · have hne : rest.take limit≠[] := by
          have hpos := h.limit_pos
          intro hempty
          have hlength := congrArg List.length hempty
          rw [List.length_take,List.length_nil] at hlength
          omega
        have hlast' := List.getLast?_eq_some_getLast hne
        rw [if_neg hlast,hlast',Option.map_some]
        dsimp only
        have hbehind : listing (PagedWalks.walkItems visit (rest.take limit) (ask after s).1).1=
            (new++(new'++(front++rest.take limit)))++rest.drop limit := by
          rw [hnew,hnew',hlisting]
          simp only [List.append_assoc,List.take_append_drop]
        have hat : AtCursor key (some (key ((rest.take limit).getLast hne)))
            (new++(new'++(front++rest.take limit))) := by
          refine .inr ⟨new++(new'++(front++(rest.take limit).dropLast)),_,?_,rfl⟩
          simp only [List.append_assoc,List.dropLast_append_getLast]
        obtain ⟨part',hpart',hseen',hdone'⟩ := ih hat hbehind
        refine ⟨part++part',?_,?_,fun hend => ?_⟩
        · rw [hitems,hsplit]
          exact (List.prefix_append_right_inj _).mpr hpart'
        · rw [hseen',hseen,List.append_assoc]
        · rw [hitems,hdone' hend,hsplit]

/-- A walk from the start visits the first items of the listing as it is then. -/
theorem Listed.walk (h : Listed key limit listing seen ask visit) (pages : ℕ) (s : σ) :
    ∃ part, part <+: (listing s).take (pages*limit) ∧
      seen (PagedWalks.walkPages ask visit pages none s).1=seen s++part ∧
      ((PagedWalks.walkPages ask visit pages none s).2=.done →
        part=(listing s).take (pages*limit)) :=
  h.walkPages pages (.inl ⟨rfl,rfl⟩) rfl

end Listing

end ScamLens.PagedWalks
