import ScamLens.EventBuses

/-!
# Alerts on their way to streams and devices

The subscriber takes the alerts of the channel one by one. For each it asks who
watches the user, then for the address of the user, and then puts the alert
into the queues and sends the messages one after the other. Between any two of
these steps links change, streams open, close and read, and further alerts
arrive; a failing query ends the subscription and loses what has been waiting.
-/

namespace ScamLens.AlertStreams

open BoundedQueues EventBuses EventRuns GuardianLinks PythonText

/-- A message of the channel with an integer for its user. -/
structure Alert where
  /-- `"user_id"` -/
  userId : ℕ
  /-- The other fields that are read. -/
  event : BlockEvent
  deriving DecidableEq

/-- What `_handle_event` has read when it fans an alert out. -/
structure Fan where
  /-- The alert. -/
  alert : Alert
  /-- The users it goes to. -/
  targets : List ℕ
  /-- Address of the user of the alert. -/
  wardEmail : Text
  deriving DecidableEq

/-- The messages of a fan-out. -/
def Fan.pushes (fan : Fan) : List Push :=
  let verdict := fan.alert.event.verdict.getD []
  fan.targets.map fun uid => {
    userId := uid
    title := "ScamLens blocked a scam".toList
    body := fan.wardEmail++" tried to open ".toList++fan.alert.event.domain.getD "?".toList
    url := "/account".toList
    tag := "block-".toList++(if verdict=[] then "scam".toList else verdict) }

/-- Where the subscriber stands. -/
inductive Handler where
  /-- It waits for an alert. -/
  | idle
  /-- It knows who watches the user. -/
  | queried (alert : Alert) (targets : List ℕ)
  /-- It knows the address too. -/
  | named (fan : Fan)
  /-- The alert is fanned out, and these messages are to be sent. -/
  | pushing (rest : List Push)

/-- An SSE stream; its queue object has the number of the stream. -/
structure Stream where
  /-- User that listens. -/
  who : ℕ
  /-- Number of fan-outs before it was opened. -/
  opened : ℕ
  /-- Number of fan-outs before it was closed, if it is. -/
  closed : Option ℕ

/-- The API server, with the history that its results are about. -/
structure System where
  /-- Users and links in the database. -/
  accounts : Accounts
  /-- Whether the subscription stands. -/
  connected : Bool
  /-- Alerts that wait for the subscriber, oldest first. -/
  channel : List Alert
  /-- Where it stands. -/
  handler : Handler
  /-- The event bus. -/
  bus : Bus Alert
  /-- Alerts that reached the subscription. -/
  published : List Alert
  /-- Fan-outs, in order. -/
  fanned : List Fan
  /-- Messages handed to the sender, in order. -/
  pushed : List Push
  /-- Streams, in the order of their opening. -/
  streams : List Stream

/-- A server that has just started. -/
def System.start (now : ℕ) (users : List UserRow) : System where
  accounts := GuardianLinks.start now users
  connected := true
  channel := []
  handler := .idle
  bus := Bus.init
  published := []
  fanned := []
  pushed := []
  streams := []

/-- What happens. -/
inductive Event where
  /-- A call of the link endpoints, a registration, or time. -/
  | account (e : GuardianLinks.Event)
  /-- An alert is published. -/
  | publish (alert : Alert)
  /-- The subscriber takes the next alert and reads who watches. -/
  | guardians
  /-- It reads the address of the user. -/
  | email
  /-- It fans the alert out. -/
  | fan
  /-- It sends the next message; what the sender raises is logged. -/
  | push
  /-- A query or the subscription fails. -/
  | fail
  /-- The subscriber is back. -/
  | reconnect
  /-- A stream is opened. -/
  | listen (who : ℕ)
  /-- A stream reads from its queue. -/
  | read (q : ℕ)
  /-- A stream ends. -/
  | hangUp (q : ℕ)

/-- The address of a user in an alert. -/
def wardEmail (s : Accounts) (userId : ℕ) : Text :=
  ((s.users.find? fun user => user.id=userId).map (·.email)).getD
    ("user#".toList++ofInt userId)

/-- Without anything in between the messages are those of `handleEvent`. -/
theorem pushes_eq_handleEvent (s : Accounts) (bus : EventBus) (alert : Alert) :
    Fan.pushes ⟨alert,targets s alert.userId,wardEmail s alert.userId⟩=
      (handleEvent s bus alert.userId alert.event).2 := rfl

/-- The subscriber with messages to send. -/
def Handler.sending : List Push → Handler
  | [] => .idle
  | push::rest => .pushing (push::rest)

/-- The stream is open. -/
def Stream.isOpen (st : Stream) : Bool := st.closed.isNone

/-- One step. -/
def step (s : System) : Event → System
  | .account e => {s with accounts := GuardianLinks.step s.accounts e}
  | .publish alert =>
    if s.connected then
      {s with channel := s.channel++[alert], published := s.published++[alert]}
    else s
  | .guardians =>
    match s.handler,s.channel with
    | .idle,alert::channel => {s with
        handler := .queried alert (targets s.accounts alert.userId)
        channel := channel}
    | _,_ => s
  | .email =>
    match s.handler with
    | .queried alert targets => {s with
        handler := .named ⟨alert,targets,wardEmail s.accounts alert.userId⟩}
    | _ => s
  | .fan =>
    match s.handler with
    | .named fan => {s with
        handler := Handler.sending fan.pushes
        bus := s.bus.fanout fan.targets fan.alert
        fanned := s.fanned++[fan]}
    | _ => s
  | .push =>
    match s.handler with
    | .pushing (push::rest) => {s with
        handler := Handler.sending rest
        pushed := s.pushed++[push]}
    | _ => s
  | .fail =>
    match s.handler with
    | .pushing _ => s
    | _ => {s with handler := .idle, channel := [], connected := false}
  | .reconnect => {s with connected := true}
  | .listen who => {s with
      bus := s.bus.subscribe who
      streams := s.streams++[⟨who,s.fanned.length,none⟩]}
  | .read q =>
    if (s.streams[q]?).any Stream.isOpen then {s with bus := s.bus.read q} else s
  | .hangUp q =>
    match s.streams[q]? with
    | some ⟨who,opened,none⟩ => {s with
        bus := s.bus.unsubscribe who q
        streams := s.streams.set q ⟨who,opened,some s.fanned.length⟩}
    | _ => s

/-- The alerts that were fanned out to the user of a stream while it was open. -/
def Stream.sent (st : Stream) (fanned : List Fan) : List Alert :=
  (((fanned.take (st.closed.getD fanned.length)).drop st.opened).filter fun fan =>
    fan.targets.contains st.who).map Fan.alert

/-- The messages that are still to be sent. -/
def Handler.remaining : Handler → List Push
  | .pushing rest => rest
  | _ => []

/-- The alert that is taken and not fanned out. -/
def Handler.current : Handler → List Alert
  | .queried alert _ => [alert]
  | .named fan => [fan.alert]
  | _ => []

/-- That alert, and the users it goes to. -/
def Handler.inHand : Handler → Option (Alert×List ℕ)
  | .queried alert targets => some (alert,targets)
  | .named fan => some (fan.alert,fan.targets)
  | _ => none

/-- The users that the alert in hand goes to. -/
def Handler.audience : Handler → List (ℕ×List ℕ)
  | .queried alert targets => [(alert.userId,targets)]
  | .named fan => [(fan.alert.userId,fan.targets)]
  | _ => []

/-- The users that a fan-out goes to. -/
def Fan.audience (fan : Fan) : ℕ×List ℕ := (fan.alert.userId,fan.targets)

/-- What every reachable system keeps. -/
structure Sound (s : System) : Prop where
  /-- The bus is sound. -/
  bus : EventBuses.Sound s.bus
  /-- Queues are numbered as the streams. -/
  count : s.bus.nextQueue=s.streams.length
  /-- The open streams listen, and nothing else does. -/
  listens : ∀ q u, q∈s.bus.listenersOf u ↔
    ∃ st, s.streams[q]?=some st ∧ st.who=u ∧ st.isOpen=true
  /-- Fan-outs are counted as they come. -/
  ordered : ∀ st∈s.streams, st.opened ≤ s.fanned.length ∧
    ∀ n, st.closed=some n → n ≤ s.fanned.length
  /-- Every queue is right about the fan-outs of its stream. -/
  right : ∀ q st, s.streams[q]?=some st → Right s.bus q (st.sent s.fanned)
  /-- Nobody is in an audience twice. -/
  nodup : ∀ audience∈s.handler.audience, audience.2.Nodup
  /-- The messages are those of the fan-outs. -/
  pushed : s.pushed++s.handler.remaining=s.fanned.flatMap Fan.pushes
  /-- Alerts are taken in the order in which they arrive, and once. -/
  taken : (s.fanned.map Fan.alert++s.handler.current++s.channel).Sublist s.published

section Streams

variable {fanned : List Fan} {fan : Fan} {st : Stream}

/-- Messages to send are what remains. -/
theorem remaining_sending (rest : List Push) : (Handler.sending rest).remaining=rest := by
  cases rest <;> rfl

/-- With messages to send there is no alert in hand. -/
theorem current_sending (rest : List Push) :
    (Handler.sending rest).current=[] ∧ (Handler.sending rest).audience=[] := by
  cases rest <;> exact ⟨rfl,rfl⟩

theorem inHand_sending (rest : List Push) : (Handler.sending rest).inHand=none := by
  cases rest <;> rfl

/-- A fan-out goes to the open streams of its targets. -/
theorem sent_append_open (hopen : st.closed=none) (hlength : st.opened ≤ fanned.length) :
    st.sent (fanned++[fan])=
      st.sent fanned++fannedOut st.who [.fanout fan.targets fan.alert] := by
  have hout : fannedOut st.who [.fanout fan.targets fan.alert]=
      if fan.targets.contains st.who then [fan.alert] else [] := by
    rw [fannedOut,List.filterMap_cons,fansOut]
    split <;> simp_all
  rw [Stream.sent,Stream.sent,hopen,Option.getD_none,Option.getD_none,List.take_length,
    List.take_length,List.drop_append_of_le_length hlength,List.filter_append,List.map_append,hout,
    List.filter_cons,List.filter_nil]
  split <;> rfl

/-- A fan-out goes past a closed stream. -/
theorem sent_append_closed {n : ℕ} (hclosed : st.closed=some n) (hlength : n ≤ fanned.length) :
    st.sent (fanned++[fan])=st.sent fanned := by
  rw [Stream.sent,Stream.sent,hclosed,Option.getD_some,Option.getD_some,
    List.take_append_of_le_length hlength]

/-- A stream that has just been opened has got nothing. -/
theorem sent_opened (who : ℕ) : Stream.sent ⟨who,fanned.length,none⟩ fanned=[] := by
  rw [Stream.sent,Option.getD_none,List.take_length,List.drop_length]
  rfl

/-- Closing a stream leaves it what it has got. -/
theorem sent_closed (who opened : ℕ) :
    Stream.sent ⟨who,opened,some fanned.length⟩ fanned=Stream.sent ⟨who,opened,none⟩ fanned := rfl

end Streams

section Steps

variable {s : System}

/-- The queue of a stream listens while the stream is open, and is retired
behind its end. -/
theorem Sound.live_or_retired (h : Sound s) {q : ℕ} {st : Stream} (hst : s.streams[q]?=some st) :
    (st.isOpen=true ∧ q∈s.bus.listenersOf st.who) ∨ (st.isOpen=false ∧ Retired s.bus q) := by
  cases hopen : st.isOpen with
  | true => exact Or.inl ⟨rfl,(h.listens q st.who).mpr ⟨st,hst,rfl,hopen⟩⟩
  | false =>
    refine Or.inr ⟨rfl,h.count.symm ▸ (List.getElem?_eq_some_iff.mp hst).1,fun u hu => ?_⟩
    obtain ⟨other,hother,-,hlive⟩ := (h.listens q u).mp hu
    obtain rfl := Option.some.inj (hst.symm.trans hother)
    rw [hopen] at hlive
    cases hlive

/-- Another alert for the subscription. -/
theorem Sound.publish (h : Sound s) (alert : Alert) :
    Sound {s with channel := s.channel++[alert], published := s.published++[alert]} where
  bus := h.bus
  count := h.count
  listens := h.listens
  ordered := h.ordered
  right := h.right
  nodup := h.nodup
  pushed := h.pushed
  taken := by
    dsimp only
    rw [←List.append_assoc]
    exact h.taken.append (List.Sublist.refl [alert])

/-- The subscriber takes an alert. -/
theorem Sound.guardians (h : Sound s) {alert : Alert} {channel : List Alert}
    (hidle : s.handler=.idle) (hchannel : s.channel=alert::channel) :
    Sound {s with
      handler := .queried alert (targets s.accounts alert.userId)
      channel := channel} where
  bus := h.bus
  count := h.count
  listens := h.listens
  ordered := h.ordered
  right := h.right
  nodup := List.forall_mem_singleton.mpr (targets_nodup s.accounts alert.userId)
  pushed := by
    have hpushed := h.pushed
    rw [hidle] at hpushed
    exact hpushed
  taken := by
    have htaken := h.taken
    have hnothing : Handler.idle.current=[] := rfl
    rw [hidle,hchannel,hnothing,List.append_nil] at htaken
    rw [Handler.current,List.append_assoc,List.singleton_append]
    exact htaken

/-- The subscriber knows the address. -/
theorem Sound.email (h : Sound s) {alert : Alert} {userIds : List ℕ}
    (hqueried : s.handler=.queried alert userIds) (address : Text) :
    Sound {s with handler := .named ⟨alert,userIds,address⟩} where
  bus := h.bus
  count := h.count
  listens := h.listens
  ordered := h.ordered
  right := h.right
  nodup := by
    have hnodup := h.nodup
    rw [hqueried] at hnodup
    exact hnodup
  pushed := by
    have hpushed := h.pushed
    rw [hqueried] at hpushed
    exact hpushed
  taken := by
    have htaken := h.taken
    rw [hqueried] at htaken
    exact htaken

/-- The alert is fanned out. -/
theorem Sound.fan (h : Sound s) {fan : Fan} (hnamed : s.handler=.named fan) :
    Sound {s with
      handler := Handler.sending fan.pushes
      bus := s.bus.fanout fan.targets fan.alert
      fanned := s.fanned++[fan]} where
  bus := h.bus.fanout fan.targets fan.alert
  count := fanout_frame.2.1.trans h.count
  listens := by
    intro q u
    dsimp only
    rw [listenersOf_fanout]
    exact h.listens q u
  ordered := by
    intro st hst
    obtain ⟨hopened,hclosed⟩ := h.ordered st hst
    dsimp only
    rw [List.length_append]
    exact ⟨by omega,fun n hn => (hclosed n hn).trans (Nat.le_add_right _ _)⟩
  right := by
    intro q st hst
    have hmem : st∈s.streams := List.mem_of_getElem? hst
    have hdistinct : DistinctIds (.fanout fan.targets fan.alert : BusEvent Alert) := by
      have hnodup := h.nodup
      rw [hnamed] at hnodup
      exact hnodup _ List.mem_cons_self
    rcases h.live_or_retired hst with ⟨hopen,hlive⟩|⟨hopen,hretired⟩
    · have hnone : st.closed=none := Option.isNone_iff_eq_none.mp hopen
      have hright := (right_step_live h.bus hlive (h.right q st hst) hdistinct
        (by simp)).2
      rw [sent_append_open hnone (h.ordered st hmem).1]
      exact hright
    · cases hclosed : st.closed with
      | none =>
        rw [Stream.isOpen,hclosed] at hopen
        cases hopen
      | some n =>
        rw [sent_append_closed hclosed ((h.ordered st hmem).2 n hclosed)]
        exact (right_step_retired hretired (h.right q st hst) (.fanout fan.targets fan.alert)).2
  nodup := by
    dsimp only
    rw [(current_sending _).2]
    exact List.forall_mem_nil _
  pushed := by
    have hpushed := h.pushed
    have hnothing : (Handler.named fan).remaining=[] := rfl
    rw [hnamed,hnothing,List.append_nil] at hpushed
    dsimp only
    rw [remaining_sending,List.flatMap_append,hpushed,List.flatMap_singleton]
  taken := by
    have htaken := h.taken
    rw [hnamed,Handler.current] at htaken
    dsimp only
    rw [(current_sending _).1,List.append_nil,List.map_append]
    exact htaken

/-- A message is sent. -/
theorem Sound.push (h : Sound s) {push : Push} {rest : List Push}
    (hpushing : s.handler=.pushing (push::rest)) :
    Sound {s with handler := Handler.sending rest, pushed := s.pushed++[push]} where
  bus := h.bus
  count := h.count
  listens := h.listens
  ordered := h.ordered
  right := h.right
  nodup := by
    dsimp only
    rw [(current_sending _).2]
    exact List.forall_mem_nil _
  pushed := by
    have hpushed := h.pushed
    rw [hpushing,Handler.remaining] at hpushed
    dsimp only
    rw [remaining_sending,List.append_assoc,List.singleton_append,hpushed]
  taken := by
    have htaken := h.taken
    rw [hpushing] at htaken
    dsimp only
    rw [(current_sending _).1]
    exact htaken

/-- The subscription ends while no messages are to be sent. -/
theorem Sound.fail (h : Sound s) (hsent : s.handler.remaining=[]) :
    Sound {s with handler := .idle, channel := [], connected := false} where
  bus := h.bus
  count := h.count
  listens := h.listens
  ordered := h.ordered
  right := h.right
  nodup := List.forall_mem_nil _
  pushed := by
    have hpushed := h.pushed
    rw [hsent] at hpushed
    exact hpushed
  taken := by
    have hnothing : Handler.idle.current=[] := rfl
    refine List.Sublist.trans ?_ h.taken
    dsimp only
    rw [hnothing,List.append_nil,List.append_nil,List.append_assoc]
    exact List.sublist_append_left _ _

/-- A stream is opened. -/
theorem Sound.listen (h : Sound s) (who : ℕ) :
    Sound {s with
      bus := s.bus.subscribe who
      streams := s.streams++[⟨who,s.fanned.length,none⟩]} where
  bus := h.bus.subscribe who
  count := by
    dsimp only
    rw [List.length_append,←h.count]
    rfl
  listens := by
    intro q u
    dsimp only
    rw [mem_listenersOf_subscribe,h.listens,h.count]
    simp only [getElem?_append_singleton,or_and_right,exists_or]
    refine or_congr_right ⟨fun hnew => ⟨_,⟨hnew.2,rfl⟩,hnew.1.symm,rfl⟩,?_⟩
    rintro ⟨st,⟨hq,rfl⟩,hwho,-⟩
    exact ⟨hwho.symm,hq⟩
  ordered := by
    refine List.forall_mem_append.mpr ⟨h.ordered,List.forall_mem_singleton.mpr ?_⟩
    exact ⟨Nat.le_refl _,fun n hn => by cases hn⟩
  right := by
    intro q st hst
    rcases getElem?_append_singleton.mp hst with hst|⟨rfl,rfl⟩
    · have hq : q < s.bus.nextQueue := h.count.symm ▸ (List.getElem?_eq_some_iff.mp hst).1
      exact (h.right q st hst).subscribe hq who
    · dsimp only
      rw [sent_opened,←h.count]
      exact right_subscribe who
  nodup := h.nodup
  pushed := h.pushed
  taken := h.taken

/-- A stream reads. -/
theorem Sound.read (h : Sound s) (q : ℕ) : Sound {s with bus := s.bus.read q} where
  bus := h.bus.read q
  count := read_frame.2.trans h.count
  listens := by
    intro other u
    dsimp only
    rw [listenersOf_read]
    exact h.listens other u
  ordered := h.ordered
  right := fun other st hst => (h.right other st hst).read q
  nodup := h.nodup
  pushed := h.pushed
  taken := h.taken

/-- A stream ends. -/
theorem Sound.hangUp (h : Sound s) {q who opened : ℕ}
    (hst : s.streams[q]?=some ⟨who,opened,none⟩) :
    Sound {s with
      bus := s.bus.unsubscribe who q
      streams := s.streams.set q ⟨who,opened,some s.fanned.length⟩} where
  bus := h.bus.unsubscribe who q
  count := by
    dsimp only
    rw [List.length_set]
    exact h.count
  listens := by
    intro other u
    dsimp only
    rw [mem_listenersOf_unsubscribe,h.listens,List.getElem?_set]
    by_cases hq : q=other
    · subst hq
      rw [if_pos rfl,hst,if_pos (List.getElem?_eq_some_iff.mp hst).1]
      refine ⟨?_,?_⟩
      · rintro ⟨⟨st,heq,hwho,-⟩,hne⟩
        obtain rfl := Option.some.inj heq
        exact absurd ⟨hwho.symm,rfl⟩ hne
      · rintro ⟨st,heq,-,hopen⟩
        obtain rfl := Option.some.inj heq
        cases hopen
    · rw [if_neg hq]
      exact ⟨And.left,fun hlive => ⟨hlive,fun hself => hq hself.2.symm⟩⟩
  ordered := by
    intro st hmem
    rcases List.mem_or_eq_of_mem_set hmem with hmem|rfl
    · exact h.ordered st hmem
    · refine ⟨(h.ordered _ (List.mem_of_getElem? hst)).1,fun n hn => ?_⟩
      exact (Option.some.inj hn).symm.le
  right := by
    intro other st hother
    dsimp only at hother ⊢
    rw [List.getElem?_set] at hother
    split at hother
    · rename_i hq
      obtain ⟨-,heq⟩ := Option.ite_none_right_eq_some.mp hother
      obtain rfl := Option.some.inj heq
      rw [sent_closed,←hq]
      exact h.right q _ hst
    · exact h.right other st hother
  nodup := h.nodup
  pushed := h.pushed
  taken := h.taken

/-- Every step keeps what holds. -/
theorem Sound.step (h : Sound s) (e : Event) : Sound (step s e) := by
  cases e with
  | account e => exact {h with}
  | publish alert =>
    rw [AlertStreams.step]
    split
    · exact h.publish alert
    · exact h
  | guardians =>
    rw [AlertStreams.step]
    split
    · rename_i hidle hchannel
      exact h.guardians hidle hchannel
    · exact h
  | email =>
    rw [AlertStreams.step]
    split
    · rename_i hqueried
      exact h.email hqueried _
    · exact h
  | fan =>
    rw [AlertStreams.step]
    split
    · rename_i hnamed
      exact h.fan hnamed
    · exact h
  | push =>
    rw [AlertStreams.step]
    split
    · rename_i hpushing
      exact h.push hpushing
    · exact h
  | fail =>
    rw [AlertStreams.step]
    split
    · exact h
    · rename_i hother
      refine h.fail ?_
      cases hhandler : s.handler with
      | pushing rest => exact absurd hhandler (hother rest)
      | idle => rfl
      | queried alert userIds => rfl
      | named fan => rfl
  | reconnect => exact {h with}
  | listen who => exact h.listen who
  | read q =>
    rw [AlertStreams.step]
    split
    · exact h.read q
    · exact h
  | hangUp q =>
    rw [AlertStreams.step]
    split
    · rename_i hst
      exact h.hangUp hst
    · exact h

end Steps

/-- A server that has just started is sound. -/
theorem sound_start (now : ℕ) (users : List UserRow) : Sound (System.start now users) where
  bus := sound_init
  count := rfl
  listens := by
    intro q u
    refine iff_of_false (Finset.notMem_empty q) ?_
    rintro ⟨st,hst,-⟩
    cases hst
  ordered := List.forall_mem_nil _
  right := fun q st hst => by cases hst
  nodup := List.forall_mem_nil _
  pushed := rfl
  taken := List.Sublist.refl []

/-- So is every server. -/
theorem sound_run (now : ℕ) (users : List UserRow) (events : List Event) :
    Sound (run step (System.start now users) events) :=
  run_invariant Sound (fun _ e h (_ : True) => h.step e) (sound_start now users)
    fun _ _ => trivial

section Audiences

/-- Whose alerts have gone to whom, the one in hand included. -/
def System.audiences (s : System) : List (ℕ×List ℕ) :=
  s.fanned.map Fan.audience++s.handler.audience

/-- A step finds the audience of one alert at most, in the links as they are. -/
theorem audiences_step (s : System) (e : Event) :
    (step s e).audiences.Sublist s.audiences ∨ ∃ userId,
      (step s e).audiences=s.audiences++[(userId,targets s.accounts userId)] := by
  cases e with
  | account e => exact Or.inl (List.Sublist.refl _)
  | publish alert =>
    rw [step]
    split <;> exact Or.inl (List.Sublist.refl _)
  | guardians =>
    rw [step]
    split
    · rename_i alert channel hidle hchannel
      refine Or.inr ⟨alert.userId,?_⟩
      have hnothing : Handler.idle.audience=[] := rfl
      rw [System.audiences,System.audiences,hidle,hnothing,List.append_nil]
      rfl
    · exact Or.inl (List.Sublist.refl _)
  | email =>
    rw [step]
    split
    · rename_i hqueried
      rw [System.audiences,System.audiences,hqueried]
      exact Or.inl (List.Sublist.refl _)
    · exact Or.inl (List.Sublist.refl _)
  | fan =>
    rw [step]
    split
    · rename_i hnamed
      rw [System.audiences,System.audiences,hnamed,(current_sending _).2,List.map_append,
        List.append_nil]
      exact Or.inl (List.Sublist.refl _)
    · exact Or.inl (List.Sublist.refl _)
  | push =>
    rw [step]
    split
    · rename_i hpushing
      rw [System.audiences,System.audiences,hpushing,(current_sending _).2]
      exact Or.inl (List.Sublist.refl _)
    · exact Or.inl (List.Sublist.refl _)
  | fail =>
    rw [step]
    split
    · exact Or.inl (List.Sublist.refl _)
    · refine Or.inl ?_
      have hnothing : Handler.idle.audience=[] := rfl
      rw [System.audiences,System.audiences,hnothing,List.append_nil]
      exact List.sublist_append_left _ _
  | reconnect => exact Or.inl (List.Sublist.refl _)
  | listen who => exact Or.inl (List.Sublist.refl _)
  | read q =>
    rw [step]
    split <;> exact Or.inl (List.Sublist.refl _)
  | hangUp q =>
    rw [step]
    split <;> exact Or.inl (List.Sublist.refl _)

/-- The event takes this alert from the channel, and finds that these users watch
its user. -/
def Takes (alert : Alert) (userIds : List ℕ) (s : System) : Event → Prop
  | .guardians => s.handler=.idle ∧ s.channel.head?=some alert ∧
      userIds=targets s.accounts alert.userId
  | _ => False

/-- The event leaves the subscriber what it has in hand. -/
def Holds (s : System) : Event → Prop
  | .fan => ∀ fan, s.handler≠.named fan
  | .fail => False
  | _ => True

/-- What the event fans out. -/
def fansOff (s : System) : Event → Option Fan
  | .fan =>
    match s.handler with
    | .named fan => some fan
    | _ => none
  | _ => none

/-- Fanning out takes an alert whose address is known. -/
theorem fansOff_eq_some {s : System} {e : Event} {fan : Fan} :
    fansOff s e=some fan ↔ e=.fan ∧ s.handler=.named fan := by
  cases e with
  | fan =>
    rw [fansOff]
    split <;> simp_all
  | _ => simp [fansOff]

/-- Only fan-outs are recorded as such. -/
theorem fanned_step (s : System) (e : Event) :
    (step s e).fanned=s.fanned++(fansOff s e).toList := by
  cases e with
  | account e => exact (List.append_nil _).symm
  | reconnect => exact (List.append_nil _).symm
  | listen who => exact (List.append_nil _).symm
  | fan => rw [step,fansOff]; split <;> simp_all
  | publish alert => rw [step]; split <;> exact (List.append_nil _).symm
  | guardians => rw [step]; split <;> exact (List.append_nil _).symm
  | email => rw [step]; split <;> exact (List.append_nil _).symm
  | push => rw [step]; split <;> exact (List.append_nil _).symm
  | fail => rw [step]; split <;> exact (List.append_nil _).symm
  | read q => rw [step]; split <;> exact (List.append_nil _).symm
  | hangUp q => rw [step]; split <;> exact (List.append_nil _).symm

/-- An alert is in hand behind a step that takes it, or leaves it there. -/
theorem inHand_step (s : System) (e : Event) (alert : Alert) (userIds : List ℕ) :
    (step s e).handler.inHand=some (alert,userIds) ↔
      (s.handler.inHand=some (alert,userIds) ∧ Holds s e) ∨ Takes alert userIds s e := by
  cases e with
  | account e => simp [step,Holds,Takes]
  | reconnect => simp [step,Holds,Takes]
  | listen who => simp [step,Holds,Takes]
  | publish alert => rw [step]; split <;> simp [Holds,Takes]
  | read q => rw [step]; split <;> simp [Holds,Takes]
  | hangUp q => rw [step]; split <;> simp [Holds,Takes]
  | guardians =>
    rw [step]
    split
    · rename_i first rest hidle hchannel
      simp only [Holds,Takes,Handler.inHand,hidle,hchannel,Option.some.injEq,Prod.mk.injEq,
        List.head?_cons,reduceCtorEq,and_true,true_and,false_or]
      exact and_congr_right fun hfirst => hfirst ▸ eq_comm
    · rename_i hother
      have hno : ¬Takes alert userIds s .guardians := by
        rintro ⟨hidle,hfirst,-⟩
        obtain ⟨rest,hrest⟩ := List.head?_eq_some_iff.mp hfirst
        exact hother alert rest hidle hrest
      rw [or_iff_left hno]
      exact (and_iff_left trivial).symm
  | email =>
    rw [step]
    split
    · rename_i hqueried
      simp [Holds,Takes,Handler.inHand,hqueried]
    · simp [Holds,Takes]
  | fan =>
    rw [step]
    split
    · rename_i fan hnamed
      simp [Holds,Takes,inHand_sending,hnamed]
    · rename_i hother
      simp only [Holds,Takes,or_false]
      exact ⟨fun h => ⟨h,hother⟩,And.left⟩
  | push =>
    rw [step]
    split
    · rename_i hpushing
      rw [inHand_sending,hpushing]
      simp [Holds,Takes,Handler.inHand]
    · simp [Holds,Takes]
  | fail =>
    rw [step]
    split
    · rename_i hpushing
      simp [Holds,Takes,Handler.inHand,hpushing]
    · simp [Holds,Takes,Handler.inHand]

variable (now : ℕ) (users : List UserRow)

/-- The fan-out of this number is one of an alert that the subscriber took behind
the first events given, finding that its targets watch the user, and had in hand
until it fanned it out. -/
def FannedFrom (events : List Event) (i : ℕ) (fan : Fan) (pre : List Event) : Prop :=
  let before := run step (System.start now users) pre
  ∃ mid post, events=pre++.guardians::(mid++.fan::post) ∧
    Takes fan.alert fan.targets before .guardians ∧
    Along step Holds (step before .guardians) mid ∧
    (run step (step before .guardians) mid).handler=.named fan ∧
    (run step (step before .guardians) mid).fanned.length=i

/-- Every fan-out comes from the moment at which its alert was taken. -/
theorem fanned_iff (events : List Event) (i : ℕ) (fan : Fan) :
    (run step (System.start now users) events).fanned[i]?=some fan ↔
      ∃ pre, FannedFrom now users events i fan pre := by
  rw [getElem?_log_run fanned_step rfl]
  constructor
  · rintro ⟨first,e,post,rfl,hfans,hlength⟩
    obtain ⟨rfl,hnamed⟩ := fansOff_eq_some.mp hfans
    have hhand : (run step (System.start now users) first).handler.inHand=
        some (fan.alert,fan.targets) := by rw [hnamed]; rfl
    have hall : Along step (fun _ _ => True) (System.start now users) first :=
      along_of_forall (fun _ _ => trivial) _
    obtain ⟨pre,e,mid,rfl,htakes,hholds⟩ := (hall.holds_iff
      (P := fun s => s.handler.inHand=some (fan.alert,fan.targets))
      (fun s e _ => inHand_step s e fan.alert fan.targets)
      (by simp [System.start,Handler.inHand])).mp hhand
    have he : e=.guardians := by
      cases e <;> first | rfl | exact htakes.elim
    subst he
    rw [run_append,run_cons] at hnamed hlength
    exact ⟨pre,mid,post,by simp,htakes,hholds,hnamed,hlength⟩
  · rintro ⟨pre,mid,post,rfl,htakes,hholds,hnamed,hlength⟩
    refine ⟨pre++.guardians::mid,.fan,post,by simp,?_,?_⟩
    · rw [run_append,run_cons]
      exact fansOff_eq_some.mpr ⟨rfl,hnamed⟩
    · rw [run_append,run_cons,hlength]

variable {now users} in
/-- Those whom a fan-out goes to are those who watched the user when its alert
was taken. -/
theorem FannedFrom.mem_targets {events pre : List Event} {i : ℕ} {fan : Fan}
    (h : FannedFrom now users events i fan pre) (u : ℕ) :
    u∈fan.targets ↔
      Viewer (run step (System.start now users) pre).accounts fan.alert.userId u := by
  obtain ⟨mid,post,-,⟨-,-,htargets⟩,-⟩ := h
  rw [htargets]
  exact GuardianLinks.mem_targets _ _

/-- Whatever the order of the steps: the alerts that are fanned out are alerts of
the channel, in its order and none twice, each for exactly those who watched its
user when it was taken. A stream has read a subsequence of the alerts for its
user since it was opened, and misses only what 64 later ones have pushed out;
its user watched the user of each when the subscriber took it.
The messages go to the same users, one each. Streams that have ended leave
nothing behind in the bus. -/
theorem alerts_reach_viewers (events : List Event) :
    let s := run step (System.start now users) events
    (s.fanned.map Fan.alert).Sublist s.published ∧
    (∀ i fan, s.fanned[i]?=some fan → fan.targets.Nodup ∧
      ∃ pre, FannedFrom now users events i fan pre ∧ ∀ u, u∈fan.targets ↔
        Viewer (run step (System.start now users) pre).accounts fan.alert.userId u) ∧
    (∀ q st, s.streams[q]?=some st →
      (∃ taken, Tracks 64 (st.sent s.fanned) taken (s.bus.received q) (s.bus.queue q)) ∧
      ∀ alert∈s.bus.received q, ∃ i fan pre, st.opened ≤ i ∧ s.fanned[i]?=some fan ∧
        fan.alert=alert ∧ FannedFrom now users events i fan pre ∧
        Viewer (run step (System.start now users) pre).accounts alert.userId st.who) ∧
    s.pushed++s.handler.remaining=s.fanned.flatMap Fan.pushes ∧
    ((∀ st∈s.streams, st.isOpen=false) → s.bus.listeners=∅) := by
  intro s
  have h : Sound s := sound_run now users events
  refine ⟨?_,fun i fan hfan => ?_,fun q st hst => ?_,h.pushed,fun hclosed => ?_⟩
  · refine List.Sublist.trans ?_ h.taken
    rw [List.append_assoc]
    exact List.sublist_append_left _ _
  · obtain ⟨pre,hfrom⟩ := (fanned_iff now users events i fan).mp hfan
    refine ⟨?_,pre,hfrom,hfrom.mem_targets⟩
    obtain ⟨mid,post,-,⟨-,-,htargets⟩,-⟩ := hfrom
    exact htargets ▸ targets_nodup _ _
  · obtain ⟨taken,htracks⟩ := h.right q st hst
    refine ⟨⟨taken,htracks⟩,fun alert halert => ?_⟩
    obtain ⟨fan,hfan,rfl⟩ := List.mem_map.mp (htracks.sublist.subset halert)
    obtain ⟨hmem,hwho⟩ := List.mem_filter.mp hfan
    obtain ⟨k,hk⟩ := List.mem_iff_getElem?.mp hmem
    rw [List.getElem?_drop] at hk
    rw [List.getElem?_take] at hk
    obtain ⟨-,hfanned⟩ := Option.ite_none_right_eq_some.mp hk
    obtain ⟨pre,hfrom⟩ := (fanned_iff now users events _ fan).mp hfanned
    exact ⟨_,fan,pre,Nat.le_add_right _ _,hfanned,rfl,hfrom,
      (hfrom.mem_targets st.who).mp (List.contains_iff_mem.mp hwho)⟩
  · refine Finmap.ext_lookup fun u => ?_
    rw [Finmap.lookup_empty]
    cases hlookup : s.bus.listeners.lookup u with
    | none => rfl
    | some queues =>
      obtain ⟨q,hq⟩ := Finset.nonempty_iff_ne_empty.mpr (h.bus.nonempty u queues hlookup)
      have hlistens : q∈s.bus.listenersOf u := by
        rw [Bus.listenersOf,hlookup]
        exact hq
      obtain ⟨st,hst,-,hopen⟩ := (h.listens q u).mp hlistens
      rw [hclosed st (List.mem_of_getElem? hst)] at hopen
      cases hopen

end Audiences

section Revocation

/-- An audience of the ward has the guardian in it. -/
def leaks (guardian ward : ℕ) (audience : ℕ×List ℕ) : Bool :=
  audience.1=ward && audience.2.contains guardian

/-- Number of the ward's alerts that went to the guardian. -/
def System.leaked (guardian ward : ℕ) (s : System) : ℕ :=
  s.fanned.countP fun fan => leaks guardian ward fan.audience

/-- Number of the ward's alerts that a stream has read or may still read. -/
def System.held (ward q : ℕ) (s : System) : ℕ :=
  (s.bus.received q++s.bus.queue q).countP fun alert => alert.userId=ward

variable {guardian ward : ℕ} {s : System}

/-- The ward accepts an invite of the guardian. -/
def Readmits (guardian ward : ℕ) (s : System) : Event → Prop
  | .account e => Accepts guardian ward s.accounts e
  | _ => False

instance Readmits.decidable (guardian ward : ℕ) (s : System) :
    ∀ e, Decidable (Readmits guardian ward s e)
  | .account (.accept who linkId) => inferInstanceAs (Decidable (who=ward ∧
      ∃ link∈s.accounts.links.rows, link.pair=(guardian,ward) ∧ link.id=linkId ∧
        link.status=.pending))
  | .account (.tick _) | .account (.register _) | .account (.invite _ _) => isFalse id
  | .account (.reject _ _) | .account (.revoke _ _) => isFalse id
  | .publish _ | .guardians | .email | .fan | .push | .fail => isFalse id
  | .reconnect | .listen _ | .read _ | .hangUp _ => isFalse id

/-- Only the ward makes a link accepted. -/
theorem not_accepted_step (h : ¬Accepted s.accounts.links guardian ward) {e : Event}
    (he : ¬Readmits guardian ward s e) :
    ¬Accepted (step s e).accounts.links guardian ward := by
  cases e with
  | account e =>
    intro hafter
    rcases (accepted_step s.accounts e).mp hafter with ⟨hbefore,-⟩|haccepts
    · exact h hbefore
    · exact he haccepts
  | reconnect => exact h
  | listen who => exact h
  | publish alert => rw [step]; split <;> exact h
  | guardians => rw [step]; split <;> exact h
  | email => rw [step]; split <;> exact h
  | fan => rw [step]; split <;> exact h
  | push => rw [step]; split <;> exact h
  | fail => rw [step]; split <;> exact h
  | read q => rw [step]; split <;> exact h
  | hangUp q => rw [step]; split <;> exact h

/-- No further audience has a guardian in it whose link is not accepted. -/
theorem countP_audiences_step (hne : guardian≠ward)
    (h : ¬Accepted s.accounts.links guardian ward) (e : Event) :
    (step s e).audiences.countP (leaks guardian ward) ≤
      s.audiences.countP (leaks guardian ward) := by
  rcases audiences_step s e with hsublist|⟨userId,heq⟩
  · exact hsublist.countP_le
  · have hnone : leaks guardian ward (userId,targets s.accounts userId)=false := by
      rw [leaks,Bool.and_eq_false_iff]
      by_cases hward : userId=ward
      · refine Or.inr (Bool.eq_false_iff.mpr fun hmem => ?_)
        rcases (mem_targets _ _).mp (List.contains_iff_mem.mp hmem) with hself|haccepted
        · exact hne (hself.trans hward)
        · exact h (hward ▸ haccepted)
      · exact Or.inl (decide_eq_false hward)
    rw [heq,List.countP_append,List.countP_singleton,hnone]
    exact Nat.le_refl _

/-- A queue gains the element that is put. -/
theorem countP_put {α : Type*} (p : α → Bool) (capacity : ℕ) (x : α) (queue : List α) :
    (put capacity x queue).countP p ≤ queue.countP p+if p x then 1 else 0 := by
  rw [put,List.countP_append,List.countP_singleton]
  refine Nat.add_le_add_right ?_ _
  split
  · exact (List.drop_sublist 1 queue).countP_le
  · exact Nat.le_refl _

/-- What a stream of the guardian holds grows with the fan-outs to the guardian
alone. -/
theorem held_step (h : Sound s) (e : Event) {q : ℕ} {st : Stream} (hst : s.streams[q]?=some st)
    (hwho : st.who=guardian) :
    (step s e).held ward q+s.leaked guardian ward ≤
      s.held ward q+(step s e).leaked guardian ward := by
  cases e with
  | account e => exact Nat.le_refl _
  | publish alert => rw [step]; split <;> exact Nat.le_refl _
  | guardians => rw [step]; split <;> exact Nat.le_refl _
  | email => rw [step]; split <;> exact Nat.le_refl _
  | fan =>
    rw [step]
    split
    · rename_i fan hnamed
      have hnodup : fan.targets.Nodup := by
        have hall := h.nodup
        rw [hnamed] at hall
        exact hall _ List.mem_cons_self
      have hleaked : (s.fanned++[fan]).countP (fun fan => leaks guardian ward fan.audience)=
          s.leaked guardian ward+if leaks guardian ward fan.audience then 1 else 0 := by
        rw [List.countP_append,List.countP_singleton,System.leaked]
      have hqueue : ((s.bus.fanout fan.targets fan.alert).queue q).countP
            (fun alert => alert.userId=ward) ≤
          (s.bus.queue q).countP (fun alert => alert.userId=ward)+
            if leaks guardian ward fan.audience then 1 else 0 := by
        rcases h.live_or_retired hst with ⟨-,hlive⟩|⟨-,hretired⟩
        · rw [queue_fanout (fun other => h.bus.apart st.who other q hlive) hnodup hlive,hwho]
          split
          · rename_i htarget
            have hleaks : leaks guardian ward fan.audience=decide (fan.alert.userId=ward) := by
              rw [leaks,Fan.audience,List.contains_iff_mem.mpr htarget,Bool.and_true]
            rw [hleaks]
            exact countP_put _ _ _ _
          · exact Nat.le_add_right _ _
        · rw [queue_fanout_of_notMem fun other _ => hretired.2 other]
          exact Nat.le_add_right _ _
      rw [System.held,System.held,System.leaked,System.leaked]
      dsimp only
      rw [fanout_frame.2.2,hleaked,List.countP_append,List.countP_append]
      rw [System.leaked]
      omega
    · exact Nat.le_refl _
  | push => rw [step]; split <;> exact Nat.le_refl _
  | fail => rw [step]; split <;> exact Nat.le_refl _
  | reconnect => exact Nat.le_refl _
  | listen who =>
    have hq : q≠s.bus.nextQueue := by
      rw [h.count]
      exact (List.getElem?_eq_some_iff.mp hst).1.ne
    have hsame : (step s (.listen who)).held ward q=s.held ward q := by
      rw [step,System.held,System.held,Bus.subscribe]
      dsimp only
      rw [Function.update_of_ne hq,Function.update_of_ne hq]
    rw [hsame]
    rfl
  | read other =>
    rw [step]
    split
    · rcases read_cases s.bus other with ⟨-,hread⟩|⟨event,rest,hother,hread⟩
      · rw [hread]
      · have hsame : System.held ward q {s with bus := s.bus.read other}=s.held ward q := by
          rw [System.held,System.held,hread]
          dsimp only
          by_cases hq : q=other
          · rw [hq,Function.update_self,Function.update_self,hother,List.append_assoc]
            rfl
          · rw [Function.update_of_ne hq,Function.update_of_ne hq]
        rw [hsame]
        exact Nat.le_refl _
    · exact Nat.le_refl _
  | hangUp other => rw [step]; split <;> exact Nat.le_refl _

/-- Fan-outs are not taken back, and streams stay. -/
theorem grows_step (s : System) (e : Event) :
    s.leaked guardian ward ≤ (step s e).leaked guardian ward ∧
      s.streams.length ≤ (step s e).streams.length := by
  cases e with
  | account e => exact ⟨Nat.le_refl _,Nat.le_refl _⟩
  | publish alert => rw [step]; split <;> exact ⟨Nat.le_refl _,Nat.le_refl _⟩
  | guardians => rw [step]; split <;> exact ⟨Nat.le_refl _,Nat.le_refl _⟩
  | email => rw [step]; split <;> exact ⟨Nat.le_refl _,Nat.le_refl _⟩
  | fan =>
    rw [step]
    split
    · exact ⟨(List.sublist_append_left _ _).countP_le,Nat.le_refl _⟩
    · exact ⟨Nat.le_refl _,Nat.le_refl _⟩
  | push => rw [step]; split <;> exact ⟨Nat.le_refl _,Nat.le_refl _⟩
  | fail => rw [step]; split <;> exact ⟨Nat.le_refl _,Nat.le_refl _⟩
  | reconnect => exact ⟨Nat.le_refl _,Nat.le_refl _⟩
  | listen who =>
    refine ⟨Nat.le_refl _,?_⟩
    rw [step]
    dsimp only
    rw [List.length_append]
    exact Nat.le_add_right _ _
  | read q => rw [step]; split <;> exact ⟨Nat.le_refl _,Nat.le_refl _⟩
  | hangUp q =>
    rw [step]
    split
    · refine ⟨Nat.le_refl _,?_⟩
      dsimp only
      rw [List.length_set]
    · exact ⟨Nat.le_refl _,Nat.le_refl _⟩

/-- A stream behind a step has stood before it, or is new. -/
theorem stream_step (s : System) (e : Event) {q : ℕ} {st : Stream}
    (hst : (step s e).streams[q]?=some st) :
    (∃ old, s.streams[q]?=some old ∧ old.who=st.who) ∨
      (∃ who, e=.listen who ∧ q=s.streams.length) := by
  have hsame (h : s.streams[q]?=some st) : (∃ old, s.streams[q]?=some old ∧ old.who=st.who) ∨
      (∃ who, e=.listen who ∧ q=s.streams.length) := Or.inl ⟨st,h,rfl⟩
  cases e with
  | account e => exact hsame hst
  | publish alert => rw [step] at hst; split at hst <;> exact hsame hst
  | guardians => rw [step] at hst; split at hst <;> exact hsame hst
  | email => rw [step] at hst; split at hst <;> exact hsame hst
  | fan => rw [step] at hst; split at hst <;> exact hsame hst
  | push => rw [step] at hst; split at hst <;> exact hsame hst
  | fail => rw [step] at hst; split at hst <;> exact hsame hst
  | reconnect => exact hsame hst
  | listen who =>
    rcases getElem?_append_singleton.mp hst with hst|⟨hq,-⟩
    · exact hsame hst
    · exact Or.inr ⟨who,rfl,hq⟩
  | read other => rw [step] at hst; split at hst <;> exact hsame hst
  | hangUp other =>
    rw [step] at hst
    split at hst
    · rename_i hold
      dsimp only at hst
      rw [List.getElem?_set] at hst
      split at hst
      · rename_i hq
        obtain ⟨-,heq⟩ := Option.ite_none_right_eq_some.mp hst
        exact Or.inl ⟨_,hq ▸ hold,by rw [←Option.some.inj heq]⟩
      · exact hsame hst
    · exact hsame hst

/-- What holds from the revocation on. -/
structure Drained (guardian ward : ℕ) (before s : System) : Prop where
  /-- The link is not accepted. -/
  revoked : ¬Accepted s.accounts.links guardian ward
  /-- No audience with the guardian in it has been added. -/
  audiences : s.audiences.countP (leaks guardian ward) ≤
    before.audiences.countP (leaks guardian ward)
  /-- No fan-out has been taken back. -/
  leaked : before.leaked guardian ward ≤ s.leaked guardian ward
  /-- No stream has been taken back. -/
  streams : before.streams.length ≤ s.streams.length
  /-- Streams of the guardian hold what they held, and the fan-outs since. -/
  held : ∀ q st, s.streams[q]?=some st → st.who=guardian →
    s.held ward q+before.leaked guardian ward ≤
      (if q<before.streams.length then before.held ward q else 0)+s.leaked guardian ward

/-- Every step keeps it, unless the ward accepts the guardian. -/
theorem Drained.step {before : System} (h : Drained guardian ward before s) (hs : Sound s)
    (hne : guardian≠ward) {e : Event} (he : ¬Readmits guardian ward s e) :
    Drained guardian ward before (step s e) where
  revoked := not_accepted_step h.revoked he
  audiences := (countP_audiences_step hne h.revoked e).trans h.audiences
  leaked := h.leaked.trans (grows_step s e).1
  streams := h.streams.trans (@grows_step guardian ward s e).2
  held := by
    intro q st hst hwho
    rcases stream_step s e hst with ⟨old,hold,hsame⟩|⟨who,rfl,rfl⟩
    · have hbefore := h.held q old hold (hsame.trans hwho)
      have hstep := @held_step guardian ward s hs e q old hold (hsame.trans hwho)
      omega
    · have hfresh : (AlertStreams.step s (.listen who)).held ward s.streams.length=0 := by
        rw [AlertStreams.step,System.held,Bus.subscribe]
        dsimp only
        rw [hs.count,Function.update_self,Function.update_self]
        rfl
      rw [hfresh,if_neg (Nat.not_lt.mpr h.streams),Nat.zero_add,Nat.zero_add]
      exact h.leaked

/-- One alert is in hand at most. -/
theorem length_audience_le (handler : Handler) : handler.audience.length ≤ 1 := by
  cases handler <;> simp [Handler.audience]

/-- Once a guardian's link is revoked, or answered otherwise, at most one more
alert of the ward is fanned out to the guardian until the ward accepts an invite
of the guardian again: the one in hand. A stream of the guardian reads at most what its queue of 64
still holds and this one, a later stream at most this one. -/
theorem revoked_runs_dry (now : ℕ) (users : List UserRow) (pre post : List Event)
    (hne : guardian≠ward)
    (hrevoked : ¬Accepted (run step (System.start now users) pre).accounts.links guardian ward)
    (hnever : Along step (fun s e => ¬Readmits guardian ward s e)
      (run step (System.start now users) pre) post) :
    let before := run step (System.start now users) pre
    let after := run step (System.start now users) (pre++post)
    after.leaked guardian ward ≤ before.leaked guardian ward+before.handler.audience.length ∧
    before.handler.audience.length ≤ 1 ∧
    ∀ q st, after.streams[q]?=some st → st.who=guardian →
      (after.bus.received q).countP (fun alert => alert.userId=ward) ≤
        (if q<before.streams.length then
          (before.bus.received q).countP (fun alert => alert.userId=ward)+64 else 0)+1 := by
  intro before after
  have hbefore : Sound before := sound_run now users pre
  have hafter : after=run step before post := run_append _ pre post
  have hdrained : Sound after ∧ Drained guardian ward before after := by
    rw [hafter]
    have hkept : ∀ s e, Sound s ∧ Drained guardian ward before s → ¬Readmits guardian ward s e →
        Sound (step s e) ∧ Drained guardian ward before (step s e) :=
      fun s e h he => ⟨h.1.step e,h.2.step h.1 hne he⟩
    refine hnever.invariant hkept ⟨hbefore,?_⟩
    refine ⟨hrevoked,Nat.le_refl _,Nat.le_refl _,Nat.le_refl _,fun q st hst _ => ?_⟩
    rw [if_pos (List.getElem?_eq_some_iff.mp hst).1]
  obtain ⟨-,h⟩ := hdrained
  have hone := length_audience_le before.handler
  have hleaked : after.leaked guardian ward ≤
      before.leaked guardian ward+before.handler.audience.length := by
    have haudiences := h.audiences
    rw [System.audiences,System.audiences,List.countP_append,List.countP_append,
      List.countP_map,List.countP_map] at haudiences
    have hhand : before.handler.audience.countP (leaks guardian ward) ≤
        before.handler.audience.length := List.countP_le_length
    rw [System.leaked,System.leaked]
    exact (Nat.le_add_right _ _).trans (haudiences.trans (Nat.add_le_add_left hhand _))
  refine ⟨hleaked,hone,fun q st hst hwho => ?_⟩
  have hheld := h.held q st hst hwho
  have hread : (after.bus.received q).countP (fun alert => alert.userId=ward) ≤
      after.held ward q := (List.sublist_append_left _ _).countP_le
  have hqueue : before.held ward q ≤
      (before.bus.received q).countP (fun alert => alert.userId=ward)+64 := by
    rw [System.held,List.countP_append]
    exact Nat.add_le_add_left (List.countP_le_length.trans (hbefore.bus.bound q)) _
  split at hheld
  · rename_i hold
    rw [if_pos hold]
    omega
  · rename_i hnew
    rw [if_neg hnew]
    omega

end Revocation

/-- The guardian 1 of the ward 2 has a stream, and is revoked while an alert of
the ward is in hand. -/
def revokedInFlight : List Event :=
  [.account (.invite ⟨1,"a@b".toList,"AAAA".toList⟩ "BBBB".toList),.account (.accept 2 1),
    .listen 1,.publish ⟨2,⟨some "evil.com".toList,some "scam".toList⟩⟩,.guardians,
    .account (.revoke 2 1)]

/-- The stream reads that alert, and the next one goes past it, though the ward
has accepted the guardian 3. -/
theorem revokedInFlight_runs_dry :
    let users : List UserRow := [⟨1,"a@b".toList,"AAAA".toList⟩,⟨2,"c@d".toList,"BBBB".toList⟩,
      ⟨3,"e@f".toList,"CCCC".toList⟩]
    let post : List Event := [.account (.invite ⟨3,"e@f".toList,"CCCC".toList⟩ "BBBB".toList),
      .account (.accept 2 2),.email,.fan,.push,.push,.publish ⟨2,⟨none,none⟩⟩,.guardians,.email,
      .fan,.read 0,.read 0]
    let before := run step (System.start 0 users) revokedInFlight
    let after := run step (System.start 0 users) (revokedInFlight++post)
    after.bus.received 0=[⟨2,⟨some "evil.com".toList,some "scam".toList⟩⟩] ∧
    after.leaked 1 2 ≤ before.leaked 1 2+before.handler.audience.length := by
  intro users post before after
  have hrevoked : ¬Accepted before.accounts.links 1 2 := by
    have hrows : before.accounts.links.rows=[] := by decide +kernel
    rintro ⟨link,hlink,-⟩
    rw [hrows] at hlink
    exact List.not_mem_nil hlink
  have hnever : Along step (fun s e => ¬Readmits 1 2 s e) before post := by
    decide +kernel
  exact ⟨by decide +kernel,
    (revoked_runs_dry 0 users revokedInFlight post (by decide) hrevoked hnever).1⟩

end ScamLens.AlertStreams
