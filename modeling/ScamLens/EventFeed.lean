import ScamLens.GuardianLinks

/-!
# The subscriber of the block-event channel

One task reads the channel and handles the events one by one. What it can skip
is handled inside its loop; any other exception ends the subscription, and
whatever has not been read by then, or is published before the task subscribes
again, is lost. So an event is missed exactly where such an exception leaves
one unread, or where one is published into the gap.
-/

namespace ScamLens.EventFeed

open EventRuns GuardianLinks PythonText

/-- The value of `"user_id"`. -/
inductive UserIdField where
  | int (n : ℤ)
  | bool (b : Bool)
  | other

/-- `user_id`, if `isinstance(user_id, int)`; Python counts booleans. -/
def UserIdField.asInt : UserIdField → Option ℤ
  | .int n => some n
  | .bool b => some (if b then 1 else 0)
  | .other => none

/-- The data of a channel message, as `json.loads` makes it out. -/
inductive Payload where
  /-- No data, which stands for an empty object. -/
  | empty
  /-- Text that is no JSON. -/
  | notJson
  /-- JSON, but no object. -/
  | notObject
  /-- An object, with its `"user_id"` if it has one. -/
  | object (userId : Option UserIdField) (event : BlockEvent)

/-- The user and the event of a well-formed payload. -/
def Payload.wellFormed : Payload → Option (ℤ×BlockEvent)
  | .object (some field) event => field.asInt.map fun userId => (userId,event)
  | _ => none

/-- A call of `bus.fanout` on behalf of an event. -/
structure Broadcast where
  /-- User that the event is about. -/
  userId : ℤ
  /-- Users that it goes to. -/
  targets : List ℕ
  /-- The event. -/
  event : BlockEvent

/-- The subscriber, with the history that its results are about. -/
structure Subscriber where
  /-- Whether it listens; it sleeps otherwise. -/
  listening : Bool
  /-- Messages of the subscription that are not read yet. -/
  unread : List Payload
  /-- The queues of the clients. -/
  bus : EventBus
  /-- Everything published on the channel. -/
  published : List Payload
  /-- Calls of `_handle_event`. -/
  handled : List (ℤ×BlockEvent)
  /-- Calls of `bus.fanout`. -/
  broadcasts : List Broadcast

/-- A subscriber that has just subscribed. -/
def Subscriber.start (bus : EventBus) : Subscriber := ⟨true,[],bus,[],[],[]⟩

/-- What moves the subscriber. -/
inductive FeedEvent where
  /-- A message is published. -/
  | publish (payload : Payload)
  /-- The next message is read; its queries may fail. -/
  | read (accounts : Accounts) (dbUp : Bool)
  /-- The sleep is over and the channel is subscribed again. -/
  | resubscribe

namespace Subscriber

variable (s : Subscriber)

/-- An exception leaves the loop: the subscription is given up. -/
def crash : Subscriber := {s with listening := false, unread := []}

/-- The users that an event goes to; no user has a negative id. -/
def targetsOf (accounts : Accounts) : ℤ → List ℕ
  | .ofNat userId => targets accounts userId
  | .negSucc _ => []

/-- `_handle_event` up to its fan-out: its queries come first and may raise. -/
def handle (accounts : Accounts) (dbUp : Bool) (userId : ℤ) (event : BlockEvent) : Subscriber :=
  let s := {s with handled := s.handled++[(userId,event)]}
  if dbUp then
    let users := targetsOf accounts userId
    {s with
      bus := fanout s.bus users event
      broadcasts := s.broadcasts++[⟨userId,users,event⟩]}
  else s.crash

/-- The body of the loop of `run_subscriber` on one message. -/
def readPayload (accounts : Accounts) (dbUp : Bool) (payload : Payload) : Subscriber :=
  match payload with
  | .empty => s
  | .notJson => s
  | .notObject => s.crash
  | .object field event =>
    match field.bind UserIdField.asInt with
    | none => s
    | some userId => s.handle accounts dbUp userId event

end Subscriber

/-- One move of the subscriber. -/
def feedStep (s : Subscriber) : FeedEvent → Subscriber
  | .publish payload => {s with
      published := s.published++[payload]
      unread := if s.listening then s.unread++[payload] else s.unread}
  | .read accounts dbUp =>
    match s.unread with
    | [] => s
    | payload::unread => {s with unread := unread}.readPayload accounts dbUp payload
  | .resubscribe => {s with listening := true}

/-- The well-formed events among some payloads. -/
def eventsOf (payloads : List Payload) : List (ℤ×BlockEvent) :=
  payloads.filterMap Payload.wellFormed

/-- Every well-formed event that was published has been handled once, in order,
and broadcast, or is still to be read. -/
def NoneMissed (s : Subscriber) : Prop :=
  eventsOf s.published=s.handled++eventsOf s.unread ∧
    s.broadcasts.map (fun b => (b.userId,b.event))=s.handled

/-- The next message does no harm: it is no JSON value other than an object
with a well-formed event behind it, and the queries of an event succeed. -/
def ReadsSafely (dbUp : Bool) : List Payload → Prop
  | [] => True
  | .notObject::unread => eventsOf unread=[]
  | payload::_ => payload.wellFormed.isSome=true → dbUp=true

/-- The move loses no event. -/
def Safe (s : Subscriber) : FeedEvent → Prop
  | .publish payload => payload.wellFormed.isSome=true → s.listening=true
  | .read _ dbUp => ReadsSafely dbUp s.unread
  | .resubscribe => True

section Steps

variable {s : Subscriber} {accounts : Accounts} {dbUp : Bool} {payload : Payload}

@[simp] theorem eventsOf_append (front back : List Payload) :
    eventsOf (front++back)=eventsOf front++eventsOf back := List.filterMap_append

theorem eventsOf_cons_none {rest : List Payload} (h : payload.wellFormed=none) :
    eventsOf (payload::rest)=eventsOf rest := List.filterMap_cons_none h

theorem eventsOf_cons_some {rest : List Payload} {found : ℤ×BlockEvent}
    (h : payload.wellFormed=some found) : eventsOf (payload::rest)=found::eventsOf rest :=
  List.filterMap_cons_some h

/-- A published message is missed exactly when it is an event and nobody
listens. -/
theorem noneMissed_publish_iff (hs : NoneMissed s) :
    NoneMissed (feedStep s (.publish payload)) ↔
      (payload.wellFormed.isSome=true → s.listening=true) := by
  obtain ⟨hevents,hbroadcasts⟩ := hs
  rw [NoneMissed,feedStep,eventsOf_append,and_iff_left hbroadcasts]
  cases hl : s.listening with
  | true =>
    rw [if_pos rfl,eventsOf_append,hevents,List.append_assoc]
    exact iff_of_true rfl fun _ => rfl
  | false =>
    rw [if_neg Bool.false_ne_true,hevents]
    cases hw : payload.wellFormed with
    | none =>
      rw [eventsOf_cons_none hw]
      exact iff_of_true (List.append_nil _) fun h => absurd h Bool.false_ne_true
    | some found =>
      rw [eventsOf_cons_some hw]
      refine iff_of_false (fun h => ?_) fun h => absurd (h rfl) Bool.false_ne_true
      exact List.cons_ne_nil _ _ (List.append_right_eq_self.mp h)

/-- What is no event is passed over, unless it is a JSON value of another kind. -/
theorem readPayload_skip (hw : payload.wellFormed=none) (hp : payload≠.notObject) :
    s.readPayload accounts dbUp payload=s := by
  cases payload with
  | empty => rfl
  | notJson => rfl
  | notObject => exact absurd rfl hp
  | object field event =>
    have hnone : field.bind UserIdField.asInt=none := by
      cases field with
      | none => rfl
      | some field => exact Option.map_eq_none_iff.mp hw
    rw [Subscriber.readPayload,hnone]

/-- An event is handled. -/
theorem readPayload_event {found : ℤ×BlockEvent} (hw : payload.wellFormed=some found) :
    s.readPayload accounts dbUp payload=s.handle accounts dbUp found.1 found.2 := by
  cases payload with
  | object field event =>
    cases field with
    | none => cases hw
    | some field =>
      obtain ⟨userId,hid,rfl⟩ := Option.map_eq_some_iff.mp hw
      have hbind : (some field).bind UserIdField.asInt=some userId := hid
      rw [Subscriber.readPayload,hbind]
  | _ => cases hw

/-- A message of another kind is read safely unless it is an event whose
queries fail. -/
theorem readsSafely_cons {unread : List Payload} (hp : payload≠.notObject) :
    ReadsSafely dbUp (payload::unread) ↔ (payload.wellFormed.isSome=true → dbUp=true) := by
  cases payload with
  | notObject => exact absurd rfl hp
  | _ => exact Iff.rfl

/-- Reading a message misses nothing exactly when it is safe. -/
theorem noneMissed_read_iff (hs : NoneMissed s) :
    NoneMissed (feedStep s (.read accounts dbUp)) ↔ ReadsSafely dbUp s.unread := by
  rw [feedStep]
  cases hu : s.unread with
  | nil => exact iff_of_true hs trivial
  | cons payload unread =>
    obtain ⟨hevents,hbroadcasts⟩ := hs
    rw [hu] at hevents
    cases hw : payload.wellFormed with
    | none =>
      rw [eventsOf_cons_none hw] at hevents
      by_cases hp : payload=.notObject
      · subst hp
        have hiff : NoneMissed ({s with unread := unread}.crash) ↔
            eventsOf s.published=s.handled++[] :=
          and_iff_left hbroadcasts
        rw [ReadsSafely]
        refine hiff.trans ?_
        rw [hevents,List.append_right_inj]
      · dsimp only
        rw [readPayload_skip hw hp]
        refine iff_of_true ⟨hevents,hbroadcasts⟩ ?_
        rw [readsSafely_cons hp,hw]
        exact fun h => absurd h Bool.false_ne_true
    | some found =>
      rw [eventsOf_cons_some hw] at hevents
      have hsafe : ReadsSafely dbUp (payload::unread) ↔ dbUp=true := by
        rw [readsSafely_cons (by rintro rfl; cases hw),hw]
        exact ⟨fun h => h rfl,fun h _ => h⟩
      dsimp only
      rw [hsafe,readPayload_event hw,Subscriber.handle]
      cases dbUp with
      | true =>
        refine iff_of_true ⟨?_,?_⟩ rfl
        · exact hevents.trans (List.append_cons _ _ _)
        · exact (List.map_append).trans (congrArg (·++[found]) hbroadcasts)
      | false =>
        refine iff_of_false (fun h => ?_) Bool.false_ne_true
        have hsame : s.handled=s.handled++[found] := hbroadcasts.symm.trans h.2
        exact List.cons_ne_nil _ _ (List.self_eq_append_right.mp hsame)

/-- One move misses nothing exactly when it is safe. -/
theorem noneMissed_step_iff {e : FeedEvent} (hs : NoneMissed s) :
    NoneMissed (feedStep s e) ↔ Safe s e := by
  cases e with
  | publish payload => exact noneMissed_publish_iff hs
  | read accounts dbUp => exact noneMissed_read_iff hs
  | resubscribe => exact iff_of_true hs trivial

end Steps

/-- Along a run no event is missed exactly when every move is safe: the queries
of each event succeed, a JSON value of another kind is read only with no event
behind it, and no event is published while the subscriber sleeps. -/
theorem noneMissed_along_iff (bus : EventBus) (events : List FeedEvent) :
    Along feedStep (fun s e => NoneMissed (feedStep s e)) (.start bus) events ↔
      Along feedStep Safe (.start bus) events :=
  along_congr (fun _ => True) NoneMissed (fun _ _ hs _ => noneMissed_step_iff hs)
    (fun _ _ _ _ h => h) ⟨rfl,rfl⟩ fun _ _ => trivial

/-- A JSON number is published, then an event; both are read while the database
works, and the subscriber comes back. -/
private def numberThenEvent : List FeedEvent :=
  [.publish .notObject,
    .publish (.object (some (.int 7)) ⟨some "paypa1.com".toList,some "scam".toList⟩),
    .read (GuardianLinks.start 0 []) true,.resubscribe,.read (GuardianLinks.start 0 []) true]

/-- A number on the channel costs the event behind it, even though the
database never fails. -/
theorem number_costs_next_event :
    eventsOf (run feedStep (.start fun _ => []) numberThenEvent).published=
      [(7,⟨some "paypa1.com".toList,some "scam".toList⟩)] ∧
    (run feedStep (.start fun _ => []) numberThenEvent).unread.length=0 ∧
    (run feedStep (.start fun _ => []) numberThenEvent).handled=[] := by
  decide

end ScamLens.EventFeed
