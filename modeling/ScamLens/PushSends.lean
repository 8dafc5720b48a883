import Mathlib.Data.List.Nodup
import ScamLens.JsonTexts

/-!
# Push sends and the pruning of dead subscriptions

One send goes to every subscription of a user, in the order a scan of the table
returns them. An endpoint that is gone answers 404 or 410, and its row is to be
deleted. Whether the status of an answer is read at all depends on the truth
value of the response object, which is a parameter; the one of `requests` is
false for every error status, so no row is ever deleted.
-/

namespace ScamLens.PushSends

open JsonTexts PythonText

/-- A row of `push_subscriptions`. -/
structure PushSubscription where
  /-- Primary key. -/
  id : ℕ
  /-- Owner. -/
  userId : ℕ
  /-- Address of the push service. -/
  endpoint : Text
  /-- Public key of the browser. -/
  p256dh : Text
  /-- Shared secret of the browser. -/
  auth : Text
  deriving DecidableEq

/-- `push_subscriptions` in the order a scan returns its rows. -/
structure PushTable where
  /-- The rows. -/
  rows : List PushSubscription
  /-- No two rows have the same key. -/
  nodup : (rows.map (·.id)).Nodup

/-- The SELECT of `send_to_user`. -/
def PushTable.ofUser (table : PushTable) (userId : ℕ) : List PushSubscription :=
  table.rows.filter fun row => row.userId=userId

/-- The DELETE of `send_to_user`. -/
def PushTable.delete (table : PushTable) (ids : List ℕ) : PushTable where
  rows := table.rows.filter fun row => !ids.contains row.id
  nodup := table.nodup.sublist (List.filter_sublist.map _)

/-- How a call of `webpush` ends. -/
inductive SendOutcome where
  /-- The push service took the message. -/
  | success
  /-- `WebPushException`, with the status of its response if it has one. -/
  | webPushException (response : Option ℕ)
  /-- Every other exception. -/
  | otherException
  deriving DecidableEq

/-- The arguments of `webpush` that differ from call to call. -/
structure WebPush where
  /-- Address of the push service. -/
  endpoint : Text
  /-- Public key of the browser. -/
  p256dh : Text
  /-- Shared secret of the browser. -/
  auth : Text
  /-- The message. -/
  data : JsonValue

section Send

variable (truthy : ℕ → Bool) (webpush : WebPush → SendOutcome)

/-- The status that `_send_one` reads off the exception. -/
def exceptionStatus : Option ℕ → ℕ
  | none => 0
  | some status => if truthy status then status else 0

/-- `_send_one`: whether the message was taken and whether the endpoint is
dead, given the truth value of a response with a status. -/
def sendOne (endpoint p256dh auth : Text) (payload : JsonValue) : Bool×Bool :=
  match webpush ⟨endpoint,p256dh,auth,payload⟩ with
  | .success => (true,false)
  | .webPushException response =>
    let status := exceptionStatus truthy response
    (false,status == 404 || status == 410)
  | .otherException => (false,false)

/-- The loop of `send_to_user`: the number of messages taken so far and the
keys of the dead subscriptions. -/
def sendLoop (payload : JsonValue) : ℕ×List ℕ → List PushSubscription → ℕ×List ℕ
  | out,[] => out
  | (sent,deadIds),sub::subs =>
    let (ok,dead) := sendOne truthy webpush sub.endpoint sub.p256dh sub.auth payload
    sendLoop payload
      (if ok then (sent+1,deadIds) else if dead then (sent,deadIds++[sub.id]) else (sent,deadIds))
      subs

/-- `value or default` of an optional text. -/
def textOr (value : Option Text) (default : String) : JsonValue :=
  .string (if value.getD []=[] then default.toList else value.getD [])

/-- The payload of a push message. -/
def pushPayload (title body : Text) (url tag : Option Text) : JsonValue :=
  .object [("title".toList,.string title),("body".toList,.string body),
    ("url".toList,textOr url "/"),("tag".toList,textOr tag "scamlens")]

/-- `send_to_user`: the number it returns, and the table it leaves. -/
def sendToUser (available : Bool) (table : PushTable) (userId : ℕ) (title body : Text)
    (url tag : Option Text) : ℕ×PushTable :=
  if available then
    let subs := table.ofUser userId
    if subs=[] then (0,table)
    else
      let out := sendLoop truthy webpush (pushPayload title body url tag) (0,[]) subs
      (out.1,if out.2=[] then table else table.delete out.2)
  else (0,table)

end Send

section Spec

variable (truthy : ℕ → Bool) (webpush : WebPush → SendOutcome) (payload : JsonValue)

/-- How the send to a subscription ends. -/
def outcome (sub : PushSubscription) : SendOutcome :=
  webpush ⟨sub.endpoint,sub.p256dh,sub.auth,payload⟩

/-- The endpoint of a subscription is gone: it answered 404 or 410. -/
def Gone (o : SendOutcome) : Prop :=
  o=.webPushException (some 404) ∨ o=.webPushException (some 410)

instance decidableGone (o : SendOutcome) : Decidable (Gone o) :=
  inferInstanceAs (Decidable (_ ∨ _))

/-- `_send_one` notices that an endpoint is gone. -/
def Noticed (o : SendOutcome) : Prop :=
  (o=.webPushException (some 404) ∧ truthy 404=true) ∨
    (o=.webPushException (some 410) ∧ truthy 410=true)

instance decidableNoticed (o : SendOutcome) : Decidable (Noticed truthy o) :=
  inferInstanceAs (Decidable (_ ∨ _))

/-- The subscriptions that a send goes to. -/
def attempts (available : Bool) (table : PushTable) (userId : ℕ) : List PushSubscription :=
  if available then table.ofUser userId else []

/-- A send deletes exactly the subscriptions whose endpoint is gone, keeps all
others, and returns the number of messages taken. -/
structure Prunes (available : Bool) (table : PushTable) (userId : ℕ) (out : ℕ×PushTable) :
    Prop where
  /-- The result counts the messages taken. -/
  sent : out.1=((attempts available table userId).filter
    fun sub => outcome webpush payload sub=.success).length
  /-- The rows left are all but those of endpoints that are gone. -/
  rows : out.2.rows=table.rows.filter fun row =>
    !decide (row∈attempts available table userId ∧ Gone (outcome webpush payload row))

variable {truthy webpush payload}

/-- An answer with a status is noticed if the status is one of the two and the
response is true. -/
theorem noticed_status_iff {status : ℕ} : Noticed truthy (.webPushException (some status)) ↔
    truthy status=true ∧ (status=404 ∨ status=410) := by
  simp only [Noticed,SendOutcome.webPushException.injEq,Option.some.injEq]
  constructor
  · rintro (⟨rfl,htrue⟩|⟨rfl,htrue⟩)
    · exact ⟨htrue,.inl rfl⟩
    · exact ⟨htrue,.inr rfl⟩
  · rintro ⟨htrue,rfl|rfl⟩
    · exact .inl ⟨rfl,htrue⟩
    · exact .inr ⟨rfl,htrue⟩

/-- What is noticed is gone. -/
theorem Noticed.gone {o : SendOutcome} (h : Noticed truthy o) : Gone o :=
  h.imp And.left And.left

/-- What `_send_one` returns. -/
theorem sendOne_eq (sub : PushSubscription) :
    sendOne truthy webpush sub.endpoint sub.p256dh sub.auth payload=
      (decide (outcome webpush payload sub=.success),
        decide (Noticed truthy (outcome webpush payload sub))) := by
  rw [sendOne,outcome]
  cases webpush ⟨sub.endpoint,sub.p256dh,sub.auth,payload⟩ with
  | success => rfl
  | otherException => rfl
  | webPushException response =>
    cases response with
    | none => rfl
    | some status =>
      dsimp only
      refine Prod.ext rfl ?_
      rw [Bool.eq_iff_iff,decide_eq_true_iff,noticed_status_iff,exceptionStatus,Bool.or_eq_true,
        beq_iff_eq,beq_iff_eq]
      by_cases htrue : truthy status=true
      · rw [if_pos htrue]
        exact (and_iff_right htrue).symm
      · rw [if_neg htrue]
        exact ⟨fun h => absurd h (by decide),fun h => absurd h.1 htrue⟩

/-- The loop counts the messages taken and collects what it notices. -/
theorem sendLoop_eq (sent : ℕ) (deadIds : List ℕ) (subs : List PushSubscription) :
    sendLoop truthy webpush payload (sent,deadIds) subs=
      (sent+(subs.filter fun sub => outcome webpush payload sub=.success).length,
        deadIds++(subs.filter fun sub => Noticed truthy (outcome webpush payload sub)).map
          (·.id)) := by
  induction subs generalizing sent deadIds with
  | nil => rw [sendLoop,List.filter_nil,List.filter_nil,List.map_nil,List.append_nil]; rfl
  | cons sub subs ih =>
    rw [sendLoop,sendOne_eq]
    dsimp only
    rw [List.filter_cons,List.filter_cons]
    by_cases hok : outcome webpush payload sub=.success
    · have hnot : ¬Noticed truthy (outcome webpush payload sub) := by
        rw [hok]
        rintro (⟨h,-⟩|⟨h,-⟩) <;> cases h
      rw [if_pos (decide_eq_true hok),if_pos (decide_eq_true hok),ih,
        if_neg (fun h => hnot (of_decide_eq_true h)),List.length_cons]
      exact Prod.ext (by omega) rfl
    · rw [if_neg (fun h => hok (of_decide_eq_true h)),if_neg (fun h => hok (of_decide_eq_true h))]
      by_cases hdead : Noticed truthy (outcome webpush payload sub)
      · rw [if_pos (decide_eq_true hdead),if_pos (decide_eq_true hdead),ih,List.map_cons,
          List.append_assoc,List.singleton_append]
      · rw [if_neg (fun h => hdead (of_decide_eq_true h)),
          if_neg (fun h => hdead (of_decide_eq_true h)),ih]

/-- Deleting the keys of some rows deletes these rows alone. -/
theorem PushTable.delete_rows (table : PushTable) {subs : List PushSubscription}
    (hsubs : subs⊆table.rows) :
    (table.delete (subs.map (·.id))).rows=table.rows.filter fun row => !decide (row∈subs) := by
  refine List.filter_congr fun row hrow => ?_
  rw [Bool.not_inj_iff,Bool.eq_iff_iff,List.contains_iff_mem,decide_eq_true_iff,List.mem_map]
  constructor
  · rintro ⟨sub,hsub,hid⟩
    exact List.inj_on_of_nodup_map table.nodup (hsubs hsub) hrow hid ▸ hsub
  · exact fun h => ⟨row,h,rfl⟩

/-- A send goes to rows of the table. -/
theorem attempts_subset (available : Bool) (table : PushTable) (userId : ℕ) :
    attempts available table userId⊆table.rows := by
  intro row hrow
  rw [attempts] at hrow
  split at hrow
  · exact List.mem_of_mem_filter hrow
  · exact absurd hrow List.not_mem_nil

/-- What a DELETE that is left out for no keys leaves. -/
theorem delete_if_rows (table : PushTable) {subs : List PushSubscription}
    (hsubs : subs⊆table.rows) :
    (if subs.map (·.id)=[] then table else table.delete (subs.map (·.id))).rows=
      table.rows.filter fun row => !decide (row∈subs) := by
  by_cases hnone : subs=[]
  · rw [hnone,List.map_nil,if_pos rfl]
    exact (List.filter_eq_self.mpr fun row _ => rfl).symm
  · rw [if_neg (fun h => hnone (List.map_eq_nil_iff.mp h)),table.delete_rows hsubs]

/-- A send counts the messages taken and deletes the rows of the endpoints it
notices. -/
theorem sendToUser_eq (available : Bool) (table : PushTable) (userId : ℕ) (title body : Text)
    (url tag : Option Text) :
    let out := sendToUser truthy webpush available table userId title body url tag
    let payload := pushPayload title body url tag
    let noticed := (attempts available table userId).filter
      fun sub => Noticed truthy (outcome webpush payload sub)
    out.1=((attempts available table userId).filter
      fun sub => outcome webpush payload sub=.success).length ∧
    out.2.rows=table.rows.filter fun row => !decide (row∈noticed) := by
  intro out payload noticed
  have hempty (hattempts : attempts available table userId=[]) (hout : out=(0,table)) :
      out.1=((attempts available table userId).filter
        fun sub => outcome webpush payload sub=.success).length ∧
      out.2.rows=table.rows.filter fun row => !decide (row∈noticed) := by
    have hnoticed : noticed=[] := by
      change (attempts available table userId).filter _=[]
      rw [hattempts,List.filter_nil]
    rw [hout,hattempts,hnoticed]
    exact ⟨rfl,(List.filter_eq_self.mpr fun row _ => rfl).symm⟩
  cases available with
  | false => exact hempty rfl rfl
  | true =>
    by_cases hsubs : table.ofUser userId=[]
    · exact hempty hsubs (if_pos hsubs)
    · have hloop := @sendLoop_eq truthy webpush payload 0 [] (table.ofUser userId)
      have hout : out=((sendLoop truthy webpush payload (0,[]) (table.ofUser userId)).1,
          if (sendLoop truthy webpush payload (0,[]) (table.ofUser userId)).2=[] then table
          else table.delete (sendLoop truthy webpush payload (0,[]) (table.ofUser userId)).2) :=
        if_neg hsubs
      rw [hout,hloop,Nat.zero_add,List.nil_append]
      exact ⟨rfl,delete_if_rows table fun row hrow =>
        attempts_subset true table userId (List.mem_of_mem_filter hrow)⟩

/-- A send prunes the subscriptions exactly if it notices every endpoint that
is gone. -/
theorem prunes_iff_noticed (available : Bool) (table : PushTable) (userId : ℕ)
    (title body : Text) (url tag : Option Text) :
    Prunes webpush (pushPayload title body url tag) available table userId
        (sendToUser truthy webpush available table userId title body url tag) ↔
      ∀ sub∈attempts available table userId,
        Gone (outcome webpush (pushPayload title body url tag) sub) →
          Noticed truthy (outcome webpush (pushPayload title body url tag) sub) := by
  obtain ⟨hsent,hrows⟩ :=
    @sendToUser_eq truthy webpush available table userId title body url tag
  constructor
  · intro h sub hsub hgone
    by_contra hnot
    have hkept : sub∈table.rows.filter fun row =>
        !decide (row∈(attempts available table userId).filter
          fun sub => Noticed truthy (outcome webpush (pushPayload title body url tag) sub)) := by
      refine List.mem_filter.mpr ⟨attempts_subset available table userId hsub,?_⟩
      rw [Bool.not_eq_true',decide_eq_false_iff_not]
      exact fun hmem => hnot (of_decide_eq_true (List.mem_filter.mp hmem).2)
    rw [←hrows,h.rows] at hkept
    have hgoes := (List.mem_filter.mp hkept).2
    rw [Bool.not_eq_true',decide_eq_false_iff_not] at hgoes
    exact hgoes ⟨hsub,hgone⟩
  · intro h
    refine ⟨hsent,hrows.trans (List.filter_congr fun row _ => ?_)⟩
    rw [Bool.not_inj_iff,Bool.eq_iff_iff,decide_eq_true_iff,decide_eq_true_iff,List.mem_filter,
      decide_eq_true_iff]
    exact ⟨fun hrow => ⟨hrow.1,hrow.2.gone⟩,fun hrow => ⟨hrow.1,h row hrow.1 hrow.2⟩⟩

end Spec

section Requests

/-- `bool(response)` of `requests`: its status is no error. -/
def requestsTruthy (status : ℕ) : Bool := status<400

/-- A send prunes the subscriptions exactly if no endpoint it goes to is gone. -/
theorem sendToUser_prunes_iff (webpush : WebPush → SendOutcome) (available : Bool)
    (table : PushTable) (userId : ℕ) (title body : Text) (url tag : Option Text) :
    Prunes webpush (pushPayload title body url tag) available table userId
        (sendToUser requestsTruthy webpush available table userId title body url tag) ↔
      ∀ sub∈attempts available table userId,
        ¬Gone (outcome webpush (pushPayload title body url tag) sub) := by
  have hnever (o : SendOutcome) : ¬Noticed requestsTruthy o := by
    rintro (⟨-,h⟩|⟨-,h⟩)
    · exact absurd h (by decide)
    · exact absurd h (by decide)
  rw [prunes_iff_noticed]
  exact ⟨fun h sub hsub hgone => hnever _ (h sub hsub hgone),
    fun h sub hsub hgone => absurd hgone (h sub hsub)⟩

/-- A table with one subscription. -/
def oneSubscription : PushTable := ⟨[⟨1,7,"https://p.example/1".toList,[],[]⟩],by decide⟩

/-- The row of an endpoint that answers 410 stays. -/
theorem sendToUser_keeps_gone :
    ¬Prunes (fun _ => .webPushException (some 410)) (pushPayload [] [] none none) true
        oneSubscription 7
        (sendToUser requestsTruthy (fun _ => .webPushException (some 410)) true oneSubscription 7
          [] [] none none) := by
  intro h
  have hrows := congrArg List.length h.rows
  exact absurd hrows (by decide)

end Requests

end ScamLens.PushSends
