import Mathlib.Data.List.Infix
import Mathlib.Data.List.Sort
import Mathlib.Data.Nat.Notation

/-!
# Queries with an order, pages and patterns

An ORDER BY clause puts rows into an order by a key and leaves open how rows
with the same key follow each other. Pages are cut out of it by LIMIT and
OFFSET: whoever reads one after another while rows are added, up to a page that
is not full, sees every row of the beginning. A LIKE pattern matches by
characters, wildcards and escapes.
-/

namespace ScamLens.OrderedQueries

section Order

variable {α : Type*}

/-- An ORDER BY clause: rows with a larger key come first. -/
structure OrderBy (key : α → ℕ) where
  /-- The rows in order. -/
  order : List α → List α
  /-- No row is lost, and none added. -/
  perm : ∀ rows, (order rows).Perm rows
  /-- No row stands behind one with a smaller key. -/
  sorted : ∀ rows, (order rows).Pairwise fun a b => key b≤key a

/-- Rows with the same key in the order of the table. -/
def OrderBy.stable (key : α → ℕ) : OrderBy key where
  order := fun rows => rows.mergeSort fun a b => key b≤key a
  perm := fun rows => List.mergeSort_perm rows _
  sorted := by
    intro rows
    have hsorted := @List.pairwise_mergeSort _ (fun a b => decide (key b≤key a))
      (fun a b c hab hbc => by
        rw [decide_eq_true_eq] at hab hbc ⊢
        exact hbc.trans hab)
      (fun a b => by
        rw [Bool.or_eq_true,decide_eq_true_eq,decide_eq_true_eq]
        exact Nat.le_total _ _) rows
    exact hsorted.imp fun h => of_decide_eq_true h

variable {key : α → ℕ}

/-- The order has the rows of the table. -/
theorem OrderBy.mem_order (o : OrderBy key) {rows : List α} {row : α} :
    row∈o.order rows ↔ row∈rows := (o.perm rows).mem_iff

/-- With keys of their own the rows stand in one order only. -/
theorem OrderBy.strict (o : OrderBy key) {rows : List α} (hkeys : (rows.map key).Nodup) :
    (o.order rows).Pairwise fun a b => key b<key a := by
  have hordered : ((o.order rows).map key).Nodup := ((o.perm rows).map key).nodup_iff.mpr hkeys
  have hne := List.pairwise_map.mp hordered
  exact (o.sorted rows).imp₂ (fun a b hle hab => Nat.lt_of_le_of_ne hle (Ne.symm hab)) hne

/-- With keys of their own the rows of a growing table keep their order. -/
theorem OrderBy.sublist_order (o : OrderBy key) {rows more : List α} (h : rows.Sublist more)
    (hkeys : (more.map key).Nodup) : (o.order rows).Sublist (o.order more) := by
  have hantisymm : Std.Antisymm fun a b : α => key b<key a :=
    ⟨fun a b hab hba => absurd hab (Nat.lt_asymm hba)⟩
  have hsubperm : (o.order rows).Subperm (o.order more) :=
    ((o.perm rows).subperm.trans h.subperm).trans (o.perm more).symm.subperm
  exact List.sublist_of_subperm_of_pairwise hsubperm (o.strict (hkeys.sublist (h.map key)))
    (o.strict hkeys)

end Order

section Pages

variable {α : Type*}

/-- LIMIT and OFFSET of a page, counted from zero. -/
def page (size n : ℕ) (rows : List α) : List α := (rows.drop (n*size)).take size

/-- What stands behind so many rows stands so far back in a longer list, too. -/
theorem mem_drop_of_sublist {rows more : List α} (h : rows.Sublist more) {n : ℕ} {row : α}
    (hrow : row∈rows.drop n) : row∈more.drop n := by
  have hsplit : (rows.take n++rows.drop n).Sublist more := by
    rw [List.take_append_drop]
    exact h
  obtain ⟨front,back,rfl,hfront,hback⟩ := List.append_sublist_iff.mp hsplit
  have hlength : n≤front.length := by
    have htake := hfront.length_le
    have hne := List.length_pos_of_mem hrow
    rw [List.length_take] at htake
    rw [List.length_drop] at hne
    omega
  rw [List.drop_append_of_le_length hlength]
  exact List.mem_append_right _ (hback.subset hrow)

/-- A row of the first listing is in one of the pages that are read, or still
behind them. -/
theorem mem_page_or_behind (size : ℕ) {listing : ℕ → List α}
    (hgrow : ∀ n, (listing n).Sublist (listing (n+1))) {row : α} (hrow : row∈listing 0) (n : ℕ) :
    (∃ i≤n, row∈page size i (listing i)) ∨ row∈(listing n).drop ((n+1)*size) := by
  have hnext {k i : ℕ} (h : row∈(listing i).drop k) :
      row∈((listing i).drop k).take size ∨ row∈(listing i).drop (k+size) := by
    rw [← List.take_append_drop size ((listing i).drop k),List.drop_drop] at h
    exact List.mem_append.mp h
  induction n with
  | zero =>
    rw [Nat.zero_add,Nat.one_mul]
    have hfirst : row∈(listing 0).drop 0 := hrow
    rcases hnext hfirst with h | h
    · refine .inl ⟨0,Nat.le_refl 0,?_⟩
      rw [page,Nat.zero_mul]
      exact h
    · rw [Nat.zero_add] at h
      exact .inr h
  | succ n ih =>
    rcases ih with ⟨i,hi,hpage⟩ | hbehind
    · exact .inl ⟨i,Nat.le_succ_of_le hi,hpage⟩
    · rcases hnext (mem_drop_of_sublist (hgrow n) hbehind) with h | h
      · exact .inl ⟨n+1,Nat.le_refl _,h⟩
      · rw [← Nat.succ_mul] at h
        exact .inr h

/-- Whoever reads page after page up to one that is not full has seen every row
of the first listing, whatever was added meanwhile. -/
theorem exists_page_of_mem {size : ℕ} {listing : ℕ → List α}
    (hgrow : ∀ n, (listing n).Sublist (listing (n+1))) {n : ℕ}
    (hlast : (page size n (listing n)).length < size) {row : α} (hrow : row∈listing 0) :
    ∃ i≤n, row∈page size i (listing i) := by
  rcases mem_page_or_behind size hgrow hrow n with h | h
  · exact h
  · have hne := List.length_pos_of_mem h
    have hmul : (n+1)*size=n*size+size := Nat.succ_mul n size
    rw [page,List.length_take,List.length_drop] at hlast
    rw [List.length_drop] at hne
    omega

end Pages

section Patterns

/-- What a LIKE pattern is made of. -/
inductive Part where
  /-- `%`, for any characters. -/
  | many
  /-- `_`, for any character. -/
  | one
  /-- A character that stands for itself, or is escaped. -/
  | char (c : Char)

/-- The parts of a pattern, behind an escape or not. An escape with nothing
behind it, which the database refuses, is none. -/
def partsFrom : Bool → List Char → List Part
  | _,[] => []
  | true,c::pattern => .char c::partsFrom false pattern
  | false,c::pattern =>
    if c= '\\' then partsFrom true pattern
    else if c= '%' then .many::partsFrom false pattern
    else if c= '_' then .one::partsFrom false pattern
    else .char c::partsFrom false pattern

/-- Whether a text is made of such parts. -/
def matchParts : List Part → List Char → Bool
  | [],text => text.isEmpty
  | .many::parts,text => text.tails.any fun tail => matchParts parts tail
  | .one::parts,text => !text.isEmpty && matchParts parts text.tail
  | .char c::parts,text => text.head?==some c && matchParts parts text.tail

/-- `text LIKE pattern` -/
def like (pattern text : List Char) : Bool := matchParts (partsFrom false pattern) text

/-- A text without wildcards and escapes. -/
def IsPlain (text : List Char) : Prop := ∀ c∈text, c≠ '\\' ∧ c≠ '%' ∧ c≠ '_'

/-- A plain text in a pattern stands for itself. -/
theorem partsFrom_append {front : List Char} (hfront : IsPlain front) (pattern : List Char) :
    partsFrom false (front++pattern)=front.map Part.char++partsFrom false pattern := by
  induction front with
  | nil => rfl
  | cons c front ih =>
    obtain ⟨hescape,hmany,hone⟩ := hfront c List.mem_cons_self
    have hrest := ih fun d hd => hfront d (List.mem_cons_of_mem c hd)
    rw [List.cons_append,partsFrom,if_neg hescape,if_neg hmany,if_neg hone,hrest,List.map_cons,
      List.cons_append]

/-- Characters that stand for themselves match as a prefix. -/
theorem matchParts_chars (front : List Char) (parts : List Part) (text : List Char) :
    matchParts (front.map Part.char++parts) text=
      (front.isPrefixOf text && matchParts parts (text.drop front.length)) := by
  induction front generalizing text with
  | nil => rw [List.map_nil,List.nil_append,List.isPrefixOf_nil_left,Bool.true_and,
      List.length_nil,List.drop_zero]
  | cons c front ih =>
    rw [List.map_cons,List.cons_append,matchParts,ih]
    cases text with
    | nil => rfl
    | cons d text =>
      rw [List.head?_cons,List.tail_cons,List.isPrefixOf_cons_cons,List.length_cons,
        List.drop_succ_cons,Bool.and_assoc]
      have hcomm : (some d==some c)=(c==d) := by
        rw [Bool.eq_iff_iff,beq_iff_eq,beq_iff_eq,Option.some_inj,eq_comm]
      rw [hcomm]

/-- A plain text between two wildcards is looked for anywhere. -/
theorem like_contains {part : List Char} (hpart : IsPlain part) (text : List Char) :
    like ('%'::(part++['%'])) text=text.tails.any fun tail => part.isPrefixOf tail := by
  have hparts : partsFrom false ('%'::(part++['%']))=
      .many::(part.map Part.char++[.many]) := by
    rw [partsFrom,if_neg (by decide),if_pos rfl,partsFrom_append hpart]
    rfl
  have hend (text : List Char) : matchParts [.many] text=true := by
    rw [matchParts,List.any_eq_true]
    exact ⟨[],(List.mem_tails _ _).mpr List.nil_suffix,rfl⟩
  rw [like,hparts,matchParts]
  congr 1
  funext tail
  rw [matchParts_chars,hend,Bool.and_true]

end Patterns

end ScamLens.OrderedQueries
