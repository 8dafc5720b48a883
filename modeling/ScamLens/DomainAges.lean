import ScamLens.EventRuns
import ScamLens.ExpiringStores
import ScamLens.JsonTexts

/-!
# Domain ages and their cache

The age of a domain is asked of the registry and kept for 90 days under its
registrable name. What is kept is the number of days, so an answer served from
the cache is the age at the time of the query that filled it. The clock counts
microseconds. What reads a timestamp is a parameter.
-/

namespace ScamLens.DomainAges

open EventRuns ExpiringStores JsonTexts KeyedTables PythonText

section Lookup

/-- Texts that compare as equal are equal. -/
local instance lawfulText : LawfulBEq Text := List.instLawfulBEq

/-- `compound` of `_registered_label`. -/
def compound : List Text :=
  ["co.uk","com.my","com.au","com.sg","com.br","co.jp","co.kr","com.cn"].map (·.toList)

/-- `_registered_label` -/
def registeredLabel (domain : Text) : Text :=
  let parts := (stripChar '.' (lower domain)).splitOn '.'
  let n := parts.length
  if n<2 then domain
  else
    let tail := join ['.'] (parts.drop (n-2))
    if tail∈compound ∧ 3≤n then join ['.'] (parts.drop (n-3)) else tail

/-- `DomainAge` -/
structure DomainAge where
  /-- Whole days since the registration, none if they could not be told. -/
  days : Option ℤ
  /-- What the registry gave as the date. -/
  registeredAt : JsonValue

/-- How the HTTP call of `_fetch_rdap_registration` ends. -/
inductive RdapResponse where
  /-- The request or the decoding of its body raised. -/
  | raised
  /-- A response with its status and its decoded body. -/
  | response (status : ℕ) (body : JsonValue)

/-- The exceptions of `_fetch_rdap_registration`. -/
inductive RdapError where
  /-- `AttributeError`: a value has no `get`. -/
  | attributeError
  /-- `TypeError`: the events cannot be gone through. -/
  | typeError
  deriving DecidableEq

/-- The `get` of a decoded value. -/
def getField (value : JsonValue) (key : String) : Except RdapError JsonValue :=
  match value with
  | .object fields => .ok ((fields.lookup key.toList).getD .null)
  | _ => .error .attributeError

/-- Whether a value is the given string. -/
def isText (value : JsonValue) (s : String) : Bool :=
  match value with
  | .string t => t == s.toList
  | _ => false

/-- The date of the first registration event. -/
def registrationDate : List JsonValue → Except RdapError JsonValue
  | [] => .ok .null
  | e::events => do
    let action ← getField e "eventAction"
    if isText action "registration" then getField e "eventDate" else registrationDate events

/-- `_fetch_rdap_registration`, given how its HTTP call ends. -/
def fetchRdapRegistration : RdapResponse → Except RdapError JsonValue
  | .raised => .ok .null
  | .response status body =>
    if status≠200 then .ok .null
    else do
      let events ← getField body "events"
      let events := if events.truthy then events else .array []
      events.iterate.elim (.error .typeError) registrationDate

/-- Microseconds of a day. -/
def day : ℕ := 86400*1000000

/-- `RDAP_CACHE_TTL` in microseconds. -/
def rdapCacheTtl : ℕ := 90*day

/-- Whole days from an instant to a time, none of them negative. -/
def ageDays (instant : ℤ) (now : ℕ) : ℤ := max 0 ((now-instant)/day)

variable (readInstant : Text → Option ℤ)

/-- `_days_since`, given `datetime.fromisoformat` with a naive date taken as
UTC. -/
def daysSince (registeredAt : JsonValue) (now : ℕ) : Option ℤ :=
  match registeredAt with
  | .string ts =>
    (readInstant (replace ['Z'] "+00:00".toList ts)).map fun instant => ageDays instant now
  | _ => none

/-- The age that a query at the given time tells. -/
def queriedAge (registeredAt : JsonValue) (now : ℕ) : DomainAge where
  days := if registeredAt.truthy then daysSince readInstant registeredAt now else none
  registeredAt := registeredAt

/-- The ages under `rdap:<name>`. -/
abbrev AgeCache := ExpiringStore Text DomainAge

/-- `lookup_age` at the given time, given how its HTTP call would end. -/
def lookupAge (cache : AgeCache) (now : ℕ) (domain : Text) (response : RdapResponse) :
    Except RdapError DomainAge×AgeCache :=
  let key := registeredLabel domain
  match getLive cache now key with
  | some age => (.ok age,cache)
  | none =>
    match fetchRdapRegistration response with
    | .error error => (.error error,cache)
    | .ok registeredAt =>
      let age := queriedAge readInstant registeredAt now
      (.ok age,setFor cache now rdapCacheTtl key age)

end Lookup

section Calls

/-- A call of `lookup_age`. -/
structure AgeCall where
  /-- When it is made. -/
  time : ℕ
  /-- The domain asked for. -/
  domain : Text
  /-- How its HTTP call would end. -/
  response : RdapResponse

/-- The query that the entry of a name is from after one more call: the old
one for 90 days, and the one of the call from then on. -/
def refill (last : Option AgeCall) (call : AgeCall) : AgeCall :=
  (last.filter fun query => call.time < query.time+rdapCacheTtl).getD call

/-- The call whose query a call is answered from, which is the call itself if
no query before is less than 90 days old. -/
def serving (calls : List AgeCall) (call : AgeCall) : AgeCall :=
  refill (calls.foldl (fun last c => some (refill last c)) none) call

variable (readInstant : Text → Option ℤ)

/-- The cache after a call. -/
def cacheStep (cache : AgeCache) (call : AgeCall) : AgeCache :=
  (lookupAge readInstant cache call.time call.domain call.response).2

/-- The registry answers with the given date. -/
def Answers (instant : ℤ) (call : AgeCall) : Prop :=
  ∃ ts, ts≠[] ∧ fetchRdapRegistration call.response=.ok (.string ts) ∧
    readInstant (replace ['Z'] "+00:00".toList ts)=some instant

/-- The query fails. -/
def Fails (call : AgeCall) : Prop := fetchRdapRegistration call.response=.ok .null

/-- The age that the query of a call tells. -/
def callAge (call : AgeCall) : DomainAge :=
  queriedAge readInstant ((fetchRdapRegistration call.response).toOption.getD .null) call.time

variable {readInstant : Text → Option ℤ} {instant : ℤ} {call : AgeCall}

/-- An answer of the registry tells the whole days up to it. -/
theorem callAge_days (h : Answers readInstant instant call) :
    (callAge readInstant call).days=some (ageDays instant call.time) := by
  obtain ⟨ts,hne,hfetch,hts⟩ := h
  have hregistered : (fetchRdapRegistration call.response).toOption.getD .null=.string ts := by
    rw [hfetch]
    rfl
  have htruthy : (JsonValue.string ts).truthy=true := by
    rw [JsonValue.truthy,List.isEmpty_eq_false_iff.mpr hne]
    rfl
  rw [callAge,hregistered]
  change (if (JsonValue.string ts).truthy=true then _ else none)=_
  rw [if_pos htruthy,daysSince,hts,Option.map_some]

/-- A query that neither raises nor is malformed tells its age. -/
theorem callAge_spec (h : Answers readInstant instant call ∨ Fails call) :
    ∃ registeredAt, fetchRdapRegistration call.response=.ok registeredAt ∧
      queriedAge readInstant registeredAt call.time=callAge readInstant call := by
  have hok : ∃ registeredAt, fetchRdapRegistration call.response=.ok registeredAt := by
    rcases h with ⟨ts,-,hfetch,-⟩|h
    · exact ⟨_,hfetch⟩
    · exact ⟨_,h⟩
  obtain ⟨registeredAt,hfetch⟩ := hok
  refine ⟨registeredAt,hfetch,?_⟩
  rw [callAge,hfetch]
  rfl

/-- The entry of a name after the given last query. -/
def Holds (readInstant : Text → Option ℤ) (label : Text) (last : Option AgeCall)
    (cache : AgeCache) : Prop :=
  cache.lookup label=last.map fun query =>
    ⟨callAge readInstant query,query.time+rdapCacheTtl⟩

/-- A live entry is one of a query that still serves. -/
theorem Holds.getLive {label : Text} {last : Option AgeCall} {cache : AgeCache}
    (h : Holds readInstant label last cache) (now : ℕ) :
    getLive cache now label=
      (last.filter fun query => now < query.time+rdapCacheTtl).map (callAge readInstant) := by
  rw [ExpiringStores.getLive,h]
  cases last with
  | none => rfl
  | some query =>
    rw [Option.map_some,Option.bind_some,Option.filter_some]
    by_cases hlive : now < query.time+rdapCacheTtl
    · rw [if_pos hlive,if_pos (decide_eq_true hlive),Option.map_some]
    · rw [if_neg hlive,if_neg (fun hd => hlive (of_decide_eq_true hd)),Option.map_none]

/-- One call is answered by the query that serves it and leaves the entry of
that query. -/
theorem lookupAge_step {label : Text} {last : Option AgeCall} {cache : AgeCache}
    (hcache : Holds readInstant label last cache) (hlabel : registeredLabel call.domain=label)
    (hquery : Answers readInstant instant call ∨ Fails call) :
    (lookupAge readInstant cache call.time call.domain call.response).1=
        .ok (callAge readInstant (refill last call)) ∧
      Holds readInstant label (some (refill last call)) (cacheStep readInstant cache call) := by
  have hlive := hcache.getLive call.time
  obtain ⟨registeredAt,hfetch,hage⟩ := callAge_spec hquery
  rw [cacheStep,lookupAge,hlabel,hlive,refill]
  cases hserve : last.filter fun query => call.time < query.time+rdapCacheTtl with
  | none =>
    rw [Option.map_none,hfetch]
    dsimp only
    rw [hage]
    exact ⟨rfl,(lookup_insert_ite cache label label _).trans (if_pos rfl)⟩
  | some query =>
    have hlast : last=some query := (Option.filter_eq_some_iff.mp hserve).1
    rw [hlast] at hcache
    exact ⟨rfl,hcache⟩

/-- After any calls the entry of a name is that of the query that serves. -/
theorem run_holds {label : Text} {cache : AgeCache} {calls : List AgeCall}
    {last : Option AgeCall} (hcache : Holds readInstant label last cache)
    (hlabel : ∀ c∈calls, registeredLabel c.domain=label)
    (hquery : ∀ c∈calls, Answers readInstant instant c ∨ Fails c) :
    Holds readInstant label (calls.foldl (fun last c => some (refill last c)) last)
      (run (cacheStep readInstant) cache calls) := by
  induction calls generalizing last cache with
  | nil => exact hcache
  | cons c calls ih =>
    have hstep := (lookupAge_step hcache (hlabel c List.mem_cons_self)
      (hquery c List.mem_cons_self)).2
    exact ih hstep (fun c hc => hlabel c (List.mem_cons_of_mem _ hc))
      fun c hc => hquery c (List.mem_cons_of_mem _ hc)

/-- A call is served by itself or by the query before, which is then recent. -/
theorem refill_cases (last : Option AgeCall) (call : AgeCall) :
    refill last call=call ∨
      last=some (refill last call) ∧ call.time<(refill last call).time+rdapCacheTtl := by
  rw [refill]
  cases hserve : last.filter fun query => call.time < query.time+rdapCacheTtl with
  | none => exact .inl rfl
  | some query =>
    obtain ⟨hlast,hlive⟩ := Option.filter_eq_some_iff.mp hserve
    exact .inr ⟨hlast,of_decide_eq_true hlive⟩

/-- The query that serves is one of the calls. -/
theorem mem_of_foldl_refill {calls : List AgeCall} {query : AgeCall} {last : Option AgeCall}
    (h : calls.foldl (fun last c => some (refill last c)) last=some query) :
    query∈calls ∨ last=some query := by
  induction calls generalizing last with
  | nil => exact .inr h
  | cons c calls ih =>
    rcases ih h with hmem|hlast
    · exact .inl (List.mem_cons_of_mem _ hmem)
    · rcases refill_cases last c with hself|⟨hold,-⟩
      · rw [←Option.some.inj hlast,hself]
        exact .inl List.mem_cons_self
      · exact .inr (hold.trans hlast)

/-- A call is served by a call of the history that is less than 90 days old. -/
theorem serving_spec {calls : List AgeCall} {call : AgeCall}
    (htimes : (calls++[call]).Pairwise fun a b => a.time≤b.time) :
    serving calls call∈calls++[call] ∧ (serving calls call).time ≤ call.time ∧
      call.time<(serving calls call).time+rdapCacheTtl := by
  have hpos : 0 < rdapCacheTtl := by decide
  rcases refill_cases (calls.foldl (fun last c => some (refill last c)) none) call with
    hself|⟨hlast,hlive⟩
  · rw [serving,hself]
    exact ⟨List.mem_append_right _ (List.mem_singleton_self call),le_rfl,
      Nat.lt_add_of_pos_right hpos⟩
  · have hmem : serving calls call∈calls := by
      rcases mem_of_foldl_refill hlast with h|h
      · exact h
      · cases h
    exact ⟨List.mem_append_left _ hmem,
      (List.pairwise_append.mp htimes).2.2 _ hmem call (List.mem_singleton_self call),hlive⟩

/-- Whole days grow with time, by at most as many days as go by. -/
theorem ageDays_bounds (instant : ℤ) {filled now : ℕ} (hle : filled≤now)
    (hlt : now<filled+rdapCacheTtl) :
    ageDays instant filled≤ageDays instant now ∧
      ageDays instant now≤ageDays instant filled+90 := by
  unfold ageDays
  have hday : (0 : ℤ)<day := by decide
  have hlow : ((filled : ℤ)-instant)/day≤((now : ℤ)-instant)/day :=
    Int.ediv_le_ediv hday (by omega)
  have hhigh : ((now : ℤ)-instant)/day≤((filled : ℤ)-instant)/day+90 := by
    rw [←Int.add_mul_ediv_right _ _ hday.ne']
    refine Int.ediv_le_ediv hday ?_
    rw [rdapCacheTtl] at hlt
    omega
  omega

end Calls

section Staleness

/-- Every call is answered with the whole days up to the query that serves it,
which was made at most 90 days before; so the age is never too high, and too
low by at most 90 days. -/
theorem lookupAge_serving (readInstant : Text → Option ℤ) (instant : ℤ) (label : Text)
    (cache : AgeCache) (hcache : cache.lookup label=none) (calls : List AgeCall)
    (call : AgeCall) (htimes : (calls++[call]).Pairwise fun a b => a.time≤b.time)
    (hlabel : ∀ c∈calls++[call], registeredLabel c.domain=label)
    (hquery : ∀ c∈calls++[call], Answers readInstant instant c ∨ Fails c) :
    let query := serving calls call
    query∈calls++[call] ∧ query.time ≤ call.time ∧ call.time < query.time+rdapCacheTtl ∧
      (Answers readInstant instant query →
        ∃ age, (lookupAge readInstant (run (cacheStep readInstant) cache calls) call.time
            call.domain call.response).1=.ok age ∧
          age.days=some (ageDays instant query.time) ∧
          ageDays instant query.time≤ageDays instant call.time ∧
          ageDays instant call.time≤ageDays instant query.time+90) := by
  intro query
  obtain ⟨hmem,hle,hlt⟩ := serving_spec htimes
  have hempty : Holds readInstant label none cache := hcache
  have hrun := run_holds hempty (fun c hc => hlabel c (List.mem_append_left _ hc))
    fun c hc => hquery c (List.mem_append_left _ hc)
  have hcall : call∈calls++[call] := List.mem_append_right _ (List.mem_singleton_self call)
  have hanswer := (lookupAge_step hrun (hlabel call hcall) (hquery call hcall)).1
  exact ⟨hmem,hle,hlt,fun h => ⟨_,hanswer,callAge_days h,ageDays_bounds instant hle hlt⟩⟩

/-- A registration at the epoch. -/
def epochResponse : RdapResponse :=
  .response 200 (.object [("events".toList,.array [.object
    [("eventAction".toList,.string "registration".toList),
      ("eventDate".toList,.string "1970-01-01T00:00:00Z".toList)]])])

/-- Reads the epoch. -/
def readEpoch (ts : Text) : Option ℤ :=
  if ts="1970-01-01T00:00:00+00:00".toList then some 0 else none

/-- A call for one domain on the given day. -/
def callOn (n : ℕ) (response : RdapResponse) : AgeCall := ⟨n*day,"a.bc".toList,response⟩

/-- The registry answers on every day. -/
theorem answers_callOn (n : ℕ) : Answers readEpoch 0 (callOn n epochResponse) :=
  ⟨"1970-01-01T00:00:00Z".toList,by decide,rfl,by decide⟩

/-- The age on a day. -/
theorem ageDays_callOn (n : ℕ) (response : RdapResponse) :
    ageDays 0 (callOn n response).time=n := by
  have hday : (0 : ℤ)<day := by decide
  have hdiv : (((n*day : ℕ) : ℤ)-0)/day=n := by
    rw [Int.sub_zero,Int.natCast_mul,Int.mul_ediv_cancel _ hday.ne']
  rw [ageDays,callOn,hdiv]
  exact max_eq_right (Int.natCast_nonneg n)

/-- Every call of two days is answered. -/
theorem answers_two_days : ∀ c∈[callOn 20 epochResponse]++[callOn 21 epochResponse],
    Answers readEpoch 0 c ∨ Fails c := by
  intro c hc
  rcases List.mem_cons.mp hc with rfl|hc
  · exact .inl (answers_callOn 20)
  · rw [List.mem_singleton.mp hc]
    exact .inl (answers_callOn 21)

/-- On the day after a query, its entry serves. -/
theorem refill_callOn (n : ℕ) (response : RdapResponse) :
    refill (some (callOn n response)) (callOn (n+1) response)=callOn n response := by
  have hday : 0<day := by decide
  have hlive : (callOn (n+1) response).time<(callOn n response).time+rdapCacheTtl := by
    change (n+1)*day<n*day+90*day
    rw [Nat.add_mul]
    omega
  rw [refill,Option.filter_some,if_pos (decide_eq_true hlive),Option.getD_some]

/-- The age asked for on the day after the first query is the one of the day
before. -/
theorem lookupAge_serving_stale :
    ∃ age, (lookupAge readEpoch (run (cacheStep readEpoch) ∅ [callOn 20 epochResponse])
        (21*day) "a.bc".toList epochResponse).1=.ok age ∧ age.days=some 20 := by
  obtain ⟨-,-,-,h⟩ := lookupAge_serving readEpoch 0 "a.bc".toList ∅ rfl [callOn 20 epochResponse]
    (callOn 21 epochResponse) (by decide) (by decide) answers_two_days
  have hserving : serving [callOn 20 epochResponse] (callOn 21 epochResponse)=
      callOn 20 epochResponse := refill_callOn 20 epochResponse
  rw [hserving] at h
  obtain ⟨age,hage,hdays,-⟩ := h (answers_callOn 20)
  exact ⟨age,hage,hdays.trans (congrArg some (ageDays_callOn 20 epochResponse))⟩

/-- The age is not always the one of the time of the call. -/
theorem lookupAge_not_fresh :
    ¬∀ (readInstant : Text → Option ℤ) (instant : ℤ) (label : Text) (cache : AgeCache)
      (calls : List AgeCall) (call : AgeCall), cache.lookup label=none →
      ((calls++[call]).Pairwise fun a b => a.time≤b.time) →
      (∀ c∈calls++[call], registeredLabel c.domain=label) →
      (∀ c∈calls++[call], Answers readInstant instant c ∨ Fails c) →
      Answers readInstant instant call →
      ∃ age, (lookupAge readInstant (run (cacheStep readInstant) cache calls) call.time
          call.domain call.response).1=.ok age ∧
        age.days=some (ageDays instant call.time) := by
  intro h
  obtain ⟨age,hage,hdays⟩ := h readEpoch 0 "a.bc".toList ∅ [callOn 20 epochResponse]
    (callOn 21 epochResponse) rfl (by decide) (by decide) answers_two_days (answers_callOn 21)
  have hempty : Holds readEpoch "a.bc".toList none ∅ := rfl
  have hrun := @run_holds readEpoch 0 "a.bc".toList ∅ [callOn 20 epochResponse] none hempty
    (by decide)
    fun c hc => answers_two_days c (List.mem_append_left _ hc)
  have hstale := (@lookupAge_step readEpoch 0 (callOn 21 epochResponse) _ _ _ hrun (by decide)
    (.inl (answers_callOn 21))).1
  have hage20 : callAge readEpoch (refill (some (callOn 20 epochResponse))
      (callOn 21 epochResponse))=age := Except.ok.inj (hstale.symm.trans hage)
  rw [refill_callOn] at hage20
  rw [←hage20,callAge_days (answers_callOn 20),ageDays_callOn,ageDays_callOn] at hdays
  exact absurd hdays (by decide)

end Staleness

end ScamLens.DomainAges
