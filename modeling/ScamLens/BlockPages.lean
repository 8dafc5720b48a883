import ScamLens.OrderedQueries
import ScamLens.PlainMessages
import ScamLens.TableFrames

/-!
# Pages of the block log

The endpoint cuts the block log into pages, newest first, with a filter on the
domain. Each request runs two queries at two moments, and the services go on
between any of them; whoever goes through the pages still misses no row.
-/

namespace ScamLens.BlockPages

open DomainEntries EventRuns OrderedQueries PythonText Resolver Services TableFrames Tables Upstream

/-- A row of `blocked_attempts` with the columns that the database fills in. -/
structure LoggedBlock where
  /-- Primary key. -/
  id : ℕ
  /-- What was logged. -/
  attempt : BlockedAttempt
  /-- Microsecond of the transaction that logged it. -/
  createdAt : ℕ

/-- `BlockedPage`; its rows are the table's. -/
structure BlockedPage where
  /-- Rows of the page. -/
  items : List LoggedBlock
  /-- Number of rows that the filter admits. -/
  total : ℕ
  /-- Number of the page, from 1 on. -/
  page : ℕ
  /-- Rows for a page. -/
  pageSize : ℕ

/-- `ORDER BY created_at DESC` -/
abbrev ByCreation := OrderBy LoggedBlock.createdAt

/-- The lower-casing that the database's locale gives to both sides of `ILIKE`. -/
structure IlikeFolding where
  /-- The text in lower case. -/
  fold : Text → Text
  /-- Per cent signs around a text stay around it. -/
  around : ∀ q, fold ('%'::(q++['%']))= '%'::(fold q++['%'])
  /-- Wildcards and escapes come from wildcards and escapes only. -/
  plain : ∀ q, IsPlain q → IsPlain (fold q)

/-- The WHERE clause: `domain ILIKE '%q%'`, or none for an empty `q`. -/
def admits (ilike : IlikeFolding) (q : Option Text) (row : LoggedBlock) : Bool :=
  match q with
  | none => true
  | some q =>
    q.isEmpty || like (ilike.fold ('%'::(q++['%']))) (ilike.fold row.attempt.entry.domain)

/-- The rows that the filter admits. -/
def admitted (ilike : IlikeFolding) (q : Option Text) (rows : List LoggedBlock) :
    List LoggedBlock :=
  rows.filter (admits ilike q)

/-- `blocked` on the table as it is when the rows are counted and as it is when
they are listed; none for parameters that are refused. -/
def blocked (ilike : IlikeFolding) (o : ByCreation) (counted listed : List LoggedBlock)
    (page pageSize : ℤ) (q : Option Text) : Option BlockedPage :=
  if 1 ≤ page ∧ 1 ≤ pageSize ∧ pageSize≤200 then
    let offset := (page-1)*pageSize
    some {
      items := ((o.order (admitted ilike q listed)).drop offset.toNat).take pageSize.toNat
      total := (admitted ilike q counted).length
      page := page.toNat
      pageSize := pageSize.toNat }
  else none

/-- The lower-casing of Unicode is one that a locale may have. -/
def unicodeFolding : IlikeFolding where
  fold := lower
  around q := by
    have hcons : '%'::(q++['%'])=['%']++(q++['%']) := rfl
    rw [hcons,lower_append,lower_append]
    rfl
  plain q h := by
    intro d hd
    obtain ⟨c,hc,hmem⟩ := List.mem_flatMap.mp hd
    rcases mem_lowerChar hmem with ⟨-,rfl⟩ | rfl | rfl | hlarge
    · rcases toLower_cases c with hself | ⟨h65,h90,hlow⟩
      · rw [hself]
        exact h c hc
      · refine ⟨fun he => ?_,fun he => ?_,fun he => ?_⟩ <;> rw [he] at hlow <;> revert hlow <;>
          simp only [Char.reduceToNat] <;> omega
    · decide
    · decide
    · refine ⟨?_,?_,?_⟩ <;> rintro rfl <;> exact absurd hlarge (by decide)

/-- Without wildcards and escapes the filter looks for a part of the domain,
whatever the case of the letters. -/
theorem admits_iff (ilike : IlikeFolding) {q : Text} (hplain : IsPlain q) (hne : q≠[])
    (row : LoggedBlock) :
    admits ilike (some q) row=contains (ilike.fold q) (ilike.fold row.attempt.entry.domain) := by
  have hempty : q.isEmpty=false := List.isEmpty_eq_false_iff.mpr hne
  rw [admits,hempty,Bool.false_or,ilike.around,like_contains (ilike.plain q hplain),contains]

section Reading

variable {ilike : IlikeFolding} {o : ByCreation} {q : Option Text} {pageSize : ℤ}

/-- The items of a page are a page of the admitted rows, newest first. -/
theorem blocked_items {counted listed : List LoggedBlock} {n : ℕ} {answer : BlockedPage}
    (h : blocked ilike o counted listed (n+1) pageSize q=some answer) :
    answer.items=page pageSize.toNat n (o.order (admitted ilike q listed)) ∧
      answer.total=(admitted ilike q counted).length ∧ 1 ≤ pageSize := by
  rw [blocked] at h
  obtain ⟨hbounds,heq⟩ := Option.ite_none_right_eq_some.mp h
  have hoffset : (((n+1 : ℤ)-1)*pageSize).toNat=n*pageSize.toNat := by
    rw [Int.add_sub_cancel,Int.toNat_mul (Int.natCast_nonneg n) (by omega),Int.toNat_natCast]
  dsimp only at heq
  rw [hoffset] at heq
  rw [← Option.some.inj heq]
  exact ⟨rfl,rfl,hbounds.2.1⟩

/-- Pages of a log that only grows: up to one that is not full they have every
row that was admitted at first; each page holds admitted rows, newest first. -/
theorem pages_cover {counted listed : ℕ → List LoggedBlock}
    (hgrow : ∀ n, (counted n).Sublist (listed n) ∧ (listed n).Sublist (counted (n+1)))
    (hkeys : ∀ n, ((listed n).map LoggedBlock.createdAt).Nodup) {answers : ℕ → BlockedPage}
    (hanswers : ∀ n : ℕ,
      blocked ilike o (counted n) (listed n) (n+1) pageSize q=some (answers n)) :
    (∀ n, ((answers n).items.length : ℤ)<pageSize → ∀ row∈counted 0, admits ilike q row=true →
      ∃ i≤n, row∈(answers i).items) ∧
    ∀ n, (∀ row∈(answers n).items, row∈listed n ∧ admits ilike q row=true) ∧
      (answers n).items.Pairwise (fun a b => b.createdAt < a.createdAt) ∧
      ((answers n).items.length : ℤ)≤pageSize ∧
      (answers n).total=((counted n).filter (admits ilike q)).length := by
  have hitems (n : ℕ) := blocked_items (hanswers n)
  have hkeys' (n : ℕ) : ((admitted ilike q (listed n)).map LoggedBlock.createdAt).Nodup :=
    (hkeys n).sublist (List.filter_sublist.map _)
  have hlistings (n : ℕ) : (o.order (admitted ilike q (listed n))).Sublist
      (o.order (admitted ilike q (listed (n+1)))) :=
    o.sublist_order (((hgrow n).2.trans (hgrow (n+1)).1).filter _) (hkeys' (n+1))
  refine ⟨fun n hlast row hrow hadmits => ?_,fun n => ?_⟩
  · have hsize : (pageSize.toNat : ℤ)=pageSize :=
      Int.toNat_of_nonneg (by have := (hitems n).2.2; omega)
    have hfull : (page pageSize.toNat n (o.order (admitted ilike q (listed n)))).length <
        pageSize.toNat := by
      rw [(hitems n).1,← hsize] at hlast
      exact Int.ofNat_lt.mp hlast
    have hfirst : row∈o.order (admitted ilike q (listed 0)) :=
      o.mem_order.mpr (List.mem_filter.mpr ⟨(hgrow 0).1.subset hrow,hadmits⟩)
    obtain ⟨i,hi,hpage⟩ := exists_page_of_mem hlistings hfull hfirst
    exact ⟨i,hi,(hitems i).1 ▸ hpage⟩
  · have hsub : (answers n).items.Sublist (o.order (admitted ilike q (listed n))) := by
      rw [(hitems n).1,page]
      exact (List.take_sublist _ _).trans (List.drop_sublist _ _)
    refine ⟨fun row hrow => ?_,(o.strict (hkeys' n)).sublist hsub,?_,(hitems n).2.1⟩
    · exact List.mem_filter.mp (o.mem_order.mp (hsub.subset hrow))
    · rw [(hitems n).1,page,List.length_take]
      have hsize := (hitems n).2.2
      omega

end Reading

section Runs

variable (dns : Dnslib) (cfg : Config)

/-- The rows of a block log, given the id and the time that the database fills
in for each one. -/
def loggedRows (filled : ℕ → ℕ×ℕ) (db : Database) : List LoggedBlock :=
  db.blockedAttempts.zipIdx.map fun row => ⟨(filled row.2).1,row.1,(filled row.2).2⟩

/-- The stores at each moment of a run, given what happens up to the first one
and between any two. -/
def moment (s : Deployment) (between : ℕ → List Event) : ℕ → Deployment
  | 0 => run (step dns cfg) s (between 0)
  | n+1 => run (step dns cfg) (moment s between n) (between (n+1))

variable {dns cfg} {s : Deployment}

/-- A step appends to the block log or leaves it alone. -/
theorem blockedAttempts_step (e : Event) :
    s.db.blockedAttempts<+:(step dns cfg s e).db.blockedAttempts := by
  have hsame {db : Database} (h : db.blockedAttempts=s.db.blockedAttempts) :
      s.db.blockedAttempts<+:db.blockedAttempts := by
    rw [h]
  cases e with
  | tick seconds => exact hsame rfl
  | resolver e =>
    cases e with
    | query wire clientIp userId net =>
      exact hsame (congrArg _ (step_query_same wire clientIp userId net).2.1)
    | read i up net => exact hsame (congrArg _ (step_read_same i up net).2.1)
    | runTask i ok ip =>
      obtain ⟨-,hs⟩ | ⟨task,-,hs⟩ := step_runTask dns cfg s i ok ip
      · exact hsame (congrArg (fun t : Deployment => t.db.blockedAttempts) hs)
      · rw [hs]
        cases ok with
        | false => exact hsame rfl
        | true =>
          cases task with
          | resolveThenLog entry => exact List.prefix_append _ _
          | _ => exact hsame rfl
  | scanner e =>
    exact hsame (step_scanner_keeps Database.blockedAttempts (fun _ _ _ => rfl)
      (fun _ _ _ => rfl) e)
  | admin e =>
    rw [step_admin_db]
    cases e with
    | addBlocklist raw reason =>
      rw [adminWrite]
      cases domainEntry raw reason <;> exact hsame rfl
    | addWhitelist raw reason email =>
      rw [adminWrite]
      cases domainEntry raw reason <;> exact hsame rfl
    | confirmReport id =>
      exact hsame (confirmReport_keeps (·.blockedAttempts) (fun _ _ _ => rfl) s.db id)
    | rejectReport id =>
      exact hsame (rejectReport_keeps (·.blockedAttempts) (fun _ _ => rfl) s.db id)
    | _ => exact hsame rfl
  | report raw note ip =>
    obtain hs | ⟨domain,hs⟩ := step_report_db dns cfg s raw note ip
    · exact hsame (congrArg Database.blockedAttempts hs)
    · exact hsame ((congrArg Database.blockedAttempts hs).trans rfl)
  | check domain => exact hsame rfl
  | scraper domain sourcePost platform => exact hsame rfl
  | tranco e => cases e <;> exact hsame rfl
  | refresh e => exact hsame rfl

/-- What a log has, a longer one has in the same order. -/
theorem loggedRows_sublist (filled : ℕ → ℕ×ℕ) {db db' : Database}
    (h : db.blockedAttempts<+:db'.blockedAttempts) :
    (loggedRows filled db).Sublist (loggedRows filled db') := by
  obtain ⟨new,hnew⟩ := h
  rw [loggedRows,loggedRows,← hnew,List.zipIdx_append,List.map_append]
  exact List.sublist_append_left _ _

/-- Rows that are logged at different times have keys of their own. -/
theorem loggedRows_nodup {filled : ℕ → ℕ×ℕ}
    (hfilled : Function.Injective fun i => (filled i).2) (db : Database) :
    ((loggedRows filled db).map LoggedBlock.createdAt).Nodup := by
  have htimes : (loggedRows filled db).map LoggedBlock.createdAt=
      (List.range' 0 db.blockedAttempts.length).map fun i => (filled i).2 := by
    rw [loggedRows,List.map_map,← List.zipIdx_map_snd 0 db.blockedAttempts,List.map_map]
    rfl
  rw [htimes]
  exact (List.nodup_range' ).map hfilled

/-- From each moment of a run to the next the block log only grows. -/
theorem loggedRows_moment (filled : ℕ → ℕ×ℕ) (between : ℕ → List Event) (n : ℕ) :
    (loggedRows filled (moment dns cfg s between n).db).Sublist
      (loggedRows filled (moment dns cfg s between (n+1)).db) := by
  have hrun (events : List Event) (t : Deployment) :
      t.db.blockedAttempts<+:(run (step dns cfg) t events).db.blockedAttempts := by
    induction events generalizing t with
    | nil => exact List.prefix_refl _
    | cons e events ih => exact (blockedAttempts_step e).trans (ih _)
  exact loggedRows_sublist filled (hrun (between (n+1)) _)

/-- In every run of the services, whoever reads the pages of the block log one
after another up to one that is not full has seen every row that the filter
admitted at first, whatever is logged before and between the two queries of each
request; each page holds admitted rows of the log, newest first and none twice;
and a plain filter looks for a part of the domain in any case of the letters. -/
theorem pages_show_every_block (ilike : IlikeFolding) (o : ByCreation) {filled : ℕ → ℕ×ℕ}
    (hfilled : Function.Injective fun i => (filled i).2) (s : Deployment)
    (between : ℕ → List Event) {pageSize : ℤ} {q : Option Text} {answers : ℕ → BlockedPage}
    (hanswers : ∀ n : ℕ, blocked ilike o (loggedRows filled (moment dns cfg s between (2*n)).db)
      (loggedRows filled (moment dns cfg s between (2*n+1)).db) (n+1) pageSize q=
        some (answers n)) :
    (∀ n, ((answers n).items.length : ℤ)<pageSize →
      ∀ row∈loggedRows filled (moment dns cfg s between 0).db, admits ilike q row=true →
        ∃ i≤n, row∈(answers i).items) ∧
    (∀ n, (∀ row∈(answers n).items,
        row∈loggedRows filled (moment dns cfg s between (2*n+1)).db ∧ admits ilike q row=true) ∧
      (answers n).items.Pairwise (fun a b => b.createdAt < a.createdAt) ∧
      ((answers n).items.length : ℤ)≤pageSize ∧
      (answers n).total=((loggedRows filled (moment dns cfg s between (2*n)).db).filter
        (admits ilike q)).length) ∧
    ∀ part, q=some part → part≠[] → IsPlain part → ∀ row,
      admits ilike q row=contains (ilike.fold part) (ilike.fold row.attempt.entry.domain) := by
  have hcover := pages_cover (fun n => ⟨loggedRows_moment filled between (2*n),
    loggedRows_moment filled between (2*n+1)⟩) (fun n => loggedRows_nodup hfilled _) hanswers
  refine ⟨hcover.1,hcover.2,fun part hq hne hplain row => ?_⟩
  rw [hq]
  exact admits_iff ilike hplain hne row

/-- Two blocks that are still to be logged. -/
private def sampleStart : Deployment :=
  let entry (domain : Text) : BlockEntry := ⟨domain,"typosquat".toList,.scam,90,80,none,none,none⟩
  {Deployment.init with tasks :=
    [.resolveThenLog (entry "PayBill.example".toList),
      .resolveThenLog (entry "pay.example".toList)]}

/-- The stores when one task runs before each moment. -/
private def sampleMoment (n : ℕ) : Deployment :=
  moment PlainMessages.plainDns defaultConfig sampleStart
    (fun _ => [.resolver (.runTask 0 true none)]) n

/-- Rows with ids from 1 on, a microsecond each. -/
private def sampleFilled (i : ℕ) : ℕ×ℕ := (i+1,i)

/-- The pages of one row that requests for a part of the domain are answered
with. -/
private def sampleAnswers (n : ℕ) : BlockedPage where
  items := (((OrderBy.stable LoggedBlock.createdAt).order (admitted unicodeFolding
    (some "pay".toList) (loggedRows sampleFilled (sampleMoment (2*n+1)).db))).drop n).take 1
  total := (admitted unicodeFolding (some "pay".toList)
    (loggedRows sampleFilled (sampleMoment (2*n)).db)).length
  page := n+1
  pageSize := 1

/-- Going through these pages misses no row of the log as it was at first. -/
theorem sampleAnswers_cover :
    (∀ n, ((sampleAnswers n).items.length : ℤ) < 1 →
      ∀ row∈loggedRows sampleFilled (sampleMoment 0).db,
        admits unicodeFolding (some "pay".toList) row=true → ∃ i≤n, row∈(sampleAnswers i).items) ∧
    (loggedRows sampleFilled (sampleMoment 0).db).map LoggedBlock.id=[1] ∧
    (loggedRows sampleFilled (sampleMoment 1).db).map LoggedBlock.id=[1,2] := by
  have hanswers (n : ℕ) : blocked unicodeFolding (OrderBy.stable LoggedBlock.createdAt)
      (loggedRows sampleFilled (sampleMoment (2*n)).db)
      (loggedRows sampleFilled (sampleMoment (2*n+1)).db) (n+1) 1 (some "pay".toList)=
        some (sampleAnswers n) := by
    have hoffset : ((n : ℤ)+1-1)*1=(n : ℤ) := by omega
    rw [blocked,if_pos (by omega),hoffset]
    rfl
  have hfilled : Function.Injective fun i => (sampleFilled i).2 := fun _ _ h => h
  exact ⟨(pages_show_every_block unicodeFolding (OrderBy.stable LoggedBlock.createdAt) hfilled
    sampleStart _ hanswers).1,by decide,by decide⟩

end Runs

end ScamLens.BlockPages
