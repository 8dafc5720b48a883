import ScamLens.AlertStreams
import ScamLens.BlockTexts
import ScamLens.PushSends
import ScamLens.VerdictTexts

/-!
# What a device shows

The service worker turns each message into a notification, which takes the
place of an earlier one with the same tag. Push services lose messages, repeat
them and change their order. Whatever they do, a device shows, for each tag, the
message of that tag that came last, and every message is about an alert that was
meant for the owner of the device.
-/

namespace ScamLens.PushNotices

open AlertStreams EventRuns JsonDumps JsonTexts PushSends PythonText VerdictTexts
open GuardianLinks (Push UserRow Viewer)

/-- A notification. -/
structure Notice where
  /-- Its title. -/
  title : Text
  /-- `options.body` -/
  body : Text
  /-- `options.tag` -/
  tag : Text
  /-- `options.data.url` -/
  url : Text
  deriving DecidableEq

/-- The truth value of a value in the browser. -/
def jsTruthy : JsonValue → Bool
  | .array _ => true
  | .object _ => true
  | .float .nan => false
  | value => value.truthy

/-- `event.data.json()`, which reads what `json.dumps` writes as `json.loads`
does; none is an exception. -/
def readJson (depth : ℕ) (text : Text) : Option JsonValue :=
  match loads depth text with
  | .ok value => some value
  | .error _ => none

/-- The property of a value that is not null; none is `undefined`. -/
def property (key : String) : JsonValue → Option JsonValue
  | .object fields => (fields.find? fun entry => entry.1=key.toList).map Prod.snd
  | _ => none

section Worker

variable (convert : JsonValue → Text) (depth : ℕ)

/-- The text of a value, given what the browser makes of one that is no string. -/
def stringOf : JsonValue → Text
  | .string s => s
  | value => convert value

/-- `payload.key || "default"` -/
def propertyOr (payload : JsonValue) (key default : String) : Text :=
  match (property key payload).filter jsTruthy with
  | some value => stringOf convert value
  | none => default.toList

/-- The notification of a payload. -/
def noticeOf (payload : JsonValue) : Notice where
  title := propertyOr convert payload "title" "ScamLens"
  body := propertyOr convert payload "body" ""
  tag := propertyOr convert payload "tag" "scamlens"
  url := propertyOr convert payload "url" "/account"

/-- The handler of `push`: a message that is no JSON is the body of a
notification, one without data makes for none, and null raises. -/
def onPush (data : Option Text) : Option Notice :=
  data.bind fun text =>
    match readJson depth text with
    | none => some (noticeOf convert
        (.object [("title".toList,.string "ScamLens".toList),("body".toList,.string text)]))
    | some .null => none
    | some payload => some (noticeOf convert payload)

/-- What happens on a device. -/
inductive DeviceEvent where
  /-- A message arrives. -/
  | push (data : Option Text)
  /-- The notification of this tag is clicked, and closed. -/
  | click (tag : Text)
  /-- The notification of this tag is swept away. -/
  | dismiss (tag : Text)
  deriving DecidableEq

/-- The notifications that are shown behind an event: one with a tag replaces
those with the same tag. -/
def deviceStep (shown : List Notice) : DeviceEvent → List Notice
  | .push data =>
    match onPush convert depth data with
    | none => shown
    | some n => (shown.filter fun other => other.tag≠n.tag ∨ n.tag=[])++[n]
  | .click tag => shown.filter fun other => other.tag≠tag
  | .dismiss tag => shown.filter fun other => other.tag≠tag

/-- The event takes away the notification of this tag. -/
def Clears (tag : Text) : DeviceEvent → Prop
  | .push data => ∃ n, onPush convert depth data=some n ∧ n.tag=tag
  | .click other => other=tag
  | .dismiss other => other=tag

end Worker

/-- What a click on a notification does. -/
inductive Click where
  /-- The window of this address is focused. -/
  | focus (window : Text)
  /-- A window is opened at this address. -/
  | openWindow (url : Text)
  deriving DecidableEq

/-- The handler of `notificationclick`, given the addresses of the windows. -/
def onClick (windows : List Text) (n : Notice) : Click :=
  let url := if n.url=[] then "/account".toList else n.url
  match windows.find? fun window => contains url window with
  | some window => .focus window
  | none => .openWindow url

/-- A click focuses the first window at the address, or opens one. -/
theorem onClick_eq {n : Notice} (h : n.url≠[]) (windows : List Text) :
    onClick windows n=
      ((windows.find? fun window => contains n.url window).map Click.focus).getD
        (.openWindow n.url) := by
  rw [onClick,if_neg h]
  cases windows.find? fun window => contains n.url window <;> rfl

section Tags

variable {convert : JsonValue → Text} {depth : ℕ}

/-- Every message that is shown has a tag. -/
def Tagged (convert : JsonValue → Text) (depth : ℕ) : DeviceEvent → Prop
  | .push data => ∀ n, onPush convert depth data=some n → n.tag≠[]
  | _ => True

/-- A notification is shown behind an event when it comes with it, or when it
was shown before and the event takes away no notification of its tag. -/
theorem mem_deviceStep {shown : List Notice} {e : DeviceEvent} (he : Tagged convert depth e)
    (n : Notice) : n∈deviceStep convert depth shown e ↔
      (n∈shown ∧ ¬Clears convert depth n.tag e) ∨
        ∃ data, e=.push data ∧ onPush convert depth data=some n := by
  cases e with
  | push data =>
    rw [deviceStep]
    cases hn : onPush convert depth data with
    | none => simp [Clears,hn]
    | some new =>
      have htag : new.tag≠[] := he new hn
      have hclears : Clears convert depth n.tag (.push data) ↔ new.tag=n.tag := by
        simp [Clears,hn]
      have hcomes : (∃ other, DeviceEvent.push data=.push other ∧
          onPush convert depth other=some n) ↔ n=new := by
        simp [hn,@eq_comm _ new n]
      rw [hclears,hcomes,List.mem_append,List.mem_filter,List.mem_singleton,decide_eq_true_eq,
        or_iff_left htag,@ne_comm _ n.tag]
  | click tag =>
    rw [deviceStep,List.mem_filter,decide_eq_true_eq,Clears]
    simp [eq_comm]
  | dismiss tag =>
    rw [deviceStep,List.mem_filter,decide_eq_true_eq,Clears]
    simp [eq_comm]

/-- No two notifications with one tag are shown. -/
theorem nodup_deviceStep {shown : List Notice} (h : (shown.map (·.tag)).Nodup) {e : DeviceEvent}
    (he : Tagged convert depth e) : ((deviceStep convert depth shown e).map (·.tag)).Nodup := by
  cases e with
  | push data =>
    rw [deviceStep]
    cases hn : onPush convert depth data with
    | none => exact h
    | some n =>
      have htag : n.tag≠[] := he n hn
      dsimp only
      rw [List.map_append,List.map_singleton]
      refine (h.sublist (List.filter_sublist.map _)).append (List.nodup_singleton _) ?_
      intro tag hold hnew
      obtain ⟨other,hother,rfl⟩ := List.mem_map.mp hold
      have hkept := of_decide_eq_true (List.mem_filter.mp hother).2
      exact hkept.elim (fun hne => hne (List.mem_singleton.mp hnew)) htag
  | click tag => exact h.sublist (List.filter_sublist.map _)
  | dismiss tag => exact h.sublist (List.filter_sublist.map _)

/-- A device shows exactly the messages behind which nothing of their tag has
come, and none of them has been closed. -/
theorem mem_run {history : List DeviceEvent} (h : ∀ e∈history, Tagged convert depth e)
    (n : Notice) : n∈run (deviceStep convert depth) [] history ↔
      ∃ pre data post, history=pre++.push data::post ∧ onPush convert depth data=some n ∧
        ∀ e∈post, ¬Clears convert depth n.tag e := by
  have hstep : ∀ shown e, Tagged convert depth e →
      (n∈deviceStep convert depth shown e ↔
        (n∈shown ∧ ¬Clears convert depth n.tag e) ∨
          ∃ data, e=.push data ∧ onPush convert depth data=some n) :=
    fun shown e he => mem_deviceStep he n
  have hmem : n∈run (deviceStep convert depth) [] history ↔ _ :=
    (along_of_forall h []).holds_iff (P := fun shown => n∈shown) hstep List.not_mem_nil
  rw [hmem]
  constructor
  · rintro ⟨pre,e,post,rfl,⟨data,rfl,hn⟩,hkeep⟩
    exact ⟨pre,data,post,rfl,hn,(along_iff_forall _).mp hkeep⟩
  · rintro ⟨pre,data,post,rfl,hn,hkeep⟩
    exact ⟨pre,_,post,rfl,⟨data,rfl,hn⟩,along_of_forall hkeep _⟩

end Tags

section Messages

variable (float : PyFloat → Text) {convert : JsonValue → Text} {push : Push}

/-- The message that `send_to_user` sends, given how deep a value may be nested. -/
def pushText (depth : ℕ) (push : Push) : Option Text :=
  dumps float depth (pushPayload push.title push.body (some push.url) (some push.tag))

/-- The call of `test_push`. -/
def testPush (who : ℕ) : Push where
  userId := who
  title := "ScamLens".toList
  body := "Notifications are working ✓".toList
  url := "/account".toList
  tag := "test".toList

/-- The notification that says what was sent. -/
def noticeFor (push : Push) : Notice := ⟨push.title,push.body,push.tag,push.url⟩

/-- Only the body of a message may be empty. -/
structure Filled (push : Push) : Prop where
  /-- It has a title. -/
  title : push.title≠[]
  /-- It has an address. -/
  url : push.url≠[]
  /-- It has a tag. -/
  tag : push.tag≠[]

/-- A text stands for itself unless it is empty. -/
theorem textOr_some {value : Text} (h : value≠[]) (default : String) :
    textOr (some value) default=.string value := by
  rw [textOr,Option.getD_some,if_neg h]

/-- A text that is not empty is taken from the payload. -/
theorem propertyOr_string {payload : JsonValue} {key : String} {value : Text}
    (hproperty : property key payload=some (.string value)) (default : String)
    (hempty : value=[] → default.toList=[]) :
    propertyOr convert payload key default=value := by
  rw [propertyOr,hproperty]
  cases value with
  | nil => exact hempty rfl
  | cons c value => rfl

/-- The device shows what was sent to it. -/
theorem onPush_text (h : Filled push) {depth : ℕ} {text : Text}
    (htext : pushText float (depth+1) push=some text) (other : ℕ) :
    onPush convert (other+1) (some text)=some (noticeFor push) := by
  rw [pushText,pushPayload,textOr_some h.url,textOr_some h.tag] at htext
  have hflat : ∀ entry∈[("title".toList,JsonValue.string push.title),
      ("body".toList,.string push.body),("url".toList,.string push.url),
      ("tag".toList,.string push.tag)], IsFlat entry.2 := by
    simp only [List.forall_mem_cons]
    exact ⟨trivial,trivial,trivial,trivial,List.forall_mem_nil _⟩
  have hkeys : (["title","body","url","tag"].map String.toList).Nodup := by decide
  have hread : loads (other+1) text=.ok (.object [("title".toList,.string push.title),
      ("body".toList,.string push.body),("url".toList,.string push.url),
      ("tag".toList,.string push.tag)]) :=
    loads_dumps ((BlockTexts.dumps_flat hflat other depth).trans htext)
      ⟨hkeys,by simp [FieldsPlain,JsonPlain]⟩
  rw [onPush,Option.bind_some,readJson,hread]
  dsimp only
  rw [noticeOf,noticeFor,propertyOr_string (by rfl) _ (fun h' => absurd h' h.title),
    propertyOr_string (by rfl) _ (fun _ => rfl),
    propertyOr_string (by rfl) _ (fun h' => absurd h' h.tag),
    propertyOr_string (by rfl) _ (fun h' => absurd h' h.url)]

/-- The messages of a fan-out, and those of a test, are filled. -/
theorem filled_pushes (fan : Fan) : ∀ push∈fan.pushes, Filled push := by
  intro push hpush
  obtain ⟨uid,-,rfl⟩ := List.mem_map.mp hpush
  have hmark : "block-".toList≠[] := by decide
  have htitle : "ScamLens blocked a scam".toList≠[] := by decide
  have hurl : "/account".toList≠[] := by decide
  exact ⟨htitle,hurl,List.append_ne_nil_of_left_ne_nil hmark _⟩

theorem filled_testPush (who : ℕ) : Filled (testPush who) := by
  have htitle : "ScamLens".toList≠[] := by decide
  have hurl : "/account".toList≠[] := by decide
  have htag : "test".toList≠[] := by decide
  exact ⟨htitle,hurl,htag⟩

end Messages

section Devices

variable (float : PyFloat → Text) (convert : JsonValue → Text) (now : ℕ) (users : List UserRow)

/-- The message was sent to the user: as an alert of the run, or as a test. -/
def SentTo (float : PyFloat → Text) (depth : ℕ) (s : System) (u : ℕ) (data : Option Text) : Prop :=
  ∃ push, (push∈s.pushed ∨ push=testPush u) ∧ push.userId=u ∧
    ∃ text, pushText float (depth+1) push=some text ∧ data=some text

/-- Whatever happens in the API, and however the push services lose, repeat and
reorder the messages for a user: a device of the user shows no two notifications
with one tag, and shows exactly the messages behind which none of their tag has
come and none was closed. Each is the test or names the address of a user whom
the owner watched, or was, when the subscriber took the alert, and the domain; a
click on it leads to the account page. -/
theorem notices_show_alerts (events : List AlertStreams.Event) (u depth other : ℕ)
    (history : List DeviceEvent)
    (hsent : ∀ data, .push data∈history →
      SentTo float depth (run AlertStreams.step (System.start now users) events) u data) :
    let s := run AlertStreams.step (System.start now users) events
    let shown := run (deviceStep convert (other+1)) [] history
    (shown.map (·.tag)).Nodup ∧
    (∀ n, n∈shown ↔ ∃ pre data post, history=pre++.push data::post ∧
      onPush convert (other+1) data=some n ∧
      ∀ e∈post, ¬Clears convert (other+1) n.tag e) ∧
    (∀ data, .push data∈history → ∃ n, onPush convert (other+1) data=some n) ∧
    ∀ n∈shown, n=noticeFor (testPush u) ∨ ∃ i fan, s.fanned[i]?=some fan ∧ u∈fan.targets ∧
      (∃ pre, FannedFrom now users events i fan pre ∧
        Viewer (run AlertStreams.step (System.start now users) pre).accounts fan.alert.userId u) ∧
      n.title="ScamLens blocked a scam".toList ∧
      n.body=fan.wardEmail++" tried to open ".toList++fan.alert.event.domain.getD "?".toList ∧
      n.url="/account".toList ∧ ∀ windows, onClick windows n=
        ((windows.find? fun window => contains n.url window).map Click.focus).getD
          (.openWindow n.url) := by
  intro s shown
  have hsound : Sound s := sound_run now users events
  have hfan : ∀ push∈s.pushed, ∃ fan∈s.fanned, push∈fan.pushes := by
    intro push hpush
    have hall := List.mem_append_left s.handler.remaining hpush
    rw [hsound.pushed] at hall
    exact List.mem_flatMap.mp hall
  have hnotice : ∀ data, .push data∈history → ∃ push,
      (push∈s.pushed ∨ push=testPush u) ∧ push.userId=u ∧ Filled push ∧
        onPush convert (other+1) data=some (noticeFor push) := by
    intro data hdata
    obtain ⟨push,hpush,hwho,text,htext,rfl⟩ := hsent data hdata
    have hfilled : Filled push := by
      rcases hpush with hpush | rfl
      · obtain ⟨fan,-,hmem⟩ := hfan push hpush
        exact filled_pushes fan push hmem
      · exact filled_testPush u
    exact ⟨push,hpush,hwho,hfilled,onPush_text float hfilled htext other⟩
  have htagged : ∀ e∈history, Tagged convert (other+1) e := by
    intro e he
    cases e with
    | push data =>
      intro n hn
      obtain ⟨push,-,-,hfilled,heq⟩ := hnotice data he
      rw [←Option.some.inj (heq.symm.trans hn)]
      exact hfilled.tag
    | _ => exact trivial
  refine ⟨?_,mem_run htagged,fun data hdata => ?_,fun n hn => ?_⟩
  · have hempty : (([] : List Notice).map (·.tag)).Nodup := List.nodup_nil
    exact run_invariant (fun shown : List Notice => (shown.map (·.tag)).Nodup)
      (fun shown e h he => nodup_deviceStep h he) hempty htagged
  · obtain ⟨push,-,-,-,heq⟩ := hnotice data hdata
    exact ⟨_,heq⟩
  · obtain ⟨pre,data,post,rfl,hshown,-⟩ := (mem_run htagged n).mp hn
    obtain ⟨push,hpush,hwho,hfilled,heq⟩ :=
      hnotice data (List.mem_append_right _ List.mem_cons_self)
    obtain rfl : noticeFor push=n := Option.some.inj (heq.symm.trans hshown)
    rcases hpush with hpush | rfl
    · obtain ⟨fan,hfanned,hmem⟩ := hfan push hpush
      obtain ⟨uid,huid,rfl⟩ := List.mem_map.mp hmem
      obtain rfl : uid=u := hwho
      obtain ⟨i,hi⟩ := List.mem_iff_getElem?.mp hfanned
      obtain ⟨pre,hfrom⟩ := (fanned_iff now users events i fan).mp hi
      exact .inr ⟨i,fan,hi,huid,⟨pre,hfrom,(hfrom.mem_targets uid).mp huid⟩,rfl,rfl,rfl,
        onClick_eq hfilled.url⟩
    · exact .inl rfl

end Devices

section Examples

/-- A user whose device is told of two blocks. -/
private def twoBlocks : List AlertStreams.Event :=
  let alert (domain : String) : AlertStreams.Event :=
    .publish ⟨7,⟨some domain.toList,some "scam".toList⟩⟩
  [alert "bad.tk",alert "pay.top",.guardians,.email,.fan,.push,.guardians,.email,.fan,.push]

/-- The messages for it, in the wrong order, with a test between them. -/
private def sampleHistory (float : PyFloat → Text) : List DeviceEvent :=
  ((run AlertStreams.step (System.start 0 []) twoBlocks).pushed.reverse.flatMap fun push =>
    [.push (pushText float 1 push),.push (pushText float 1 (testPush 7))])

/-- Only the one that came last is shown, and the test. -/
theorem notices_show_sample :
    let shown := run (deviceStep (fun _ => []) 1) [] (sampleHistory fun _ => [])
    (shown.map (·.tag)).Nodup ∧ shown.map (·.body)=
      ["user#7 tried to open bad.tk".toList,"Notifications are working ✓".toList] := by
  have hsent : ∀ data, .push data∈sampleHistory (fun _ => []) →
      SentTo (fun _ => []) 0 (run AlertStreams.step (System.start 0 []) twoBlocks) 7 data := by
    intro data hdata
    obtain ⟨push,hpush,hmem⟩ := List.mem_flatMap.mp hdata
    have hwho : ∀ push∈(run AlertStreams.step (System.start 0 []) twoBlocks).pushed.reverse,
        push.userId=7 ∧ (pushText (fun _ => []) 1 push).isSome := by decide +kernel
    have htest : (pushText (fun _ => []) 1 (testPush 7)).isSome := by decide +kernel
    rcases List.mem_cons.mp hmem with heq | hmem
    · obtain ⟨text,htext⟩ := Option.isSome_iff_exists.mp (hwho push hpush).2
      refine ⟨push,.inl (List.mem_reverse.mp hpush),(hwho push hpush).1,text,htext,?_⟩
      rw [DeviceEvent.push.inj heq,htext]
    · obtain ⟨text,htext⟩ := Option.isSome_iff_exists.mp htest
      refine ⟨testPush 7,.inr rfl,rfl,text,htext,?_⟩
      rw [DeviceEvent.push.inj (List.mem_singleton.mp hmem),htext]
  refine ⟨(notices_show_alerts _ (fun _ => []) 0 [] twoBlocks 7 0 0 _ hsent).1,?_⟩
  decide +kernel

end Examples

end ScamLens.PushNotices
