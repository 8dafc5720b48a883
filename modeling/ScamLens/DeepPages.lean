import ScamLens.DeepScans

/-!
# The panel of a deep scan

The panel asks for the state of the scan when it is opened, starts a scan on a
click and polls while one runs. Its requests meet those of other clients at the
API, and their answers come back in any order or not at all. What its callbacks
set is rendered later, for any number of them at once, and the effects of a
render run later still. An answer that was overtaken can leave the panel waiting
for nothing; which ones do is said here.
-/

namespace ScamLens.DeepPages

open DeepScans EventRuns LookupDomains PythonText

/-- What the panel does with its answer. -/
inductive FetchKind where
  /-- The request of the first effect. -/
  | mount
  /-- A request of `poll`. -/
  | poll
  /-- The request of `start`. -/
  | start
  deriving DecidableEq

/-- A request of the panel. -/
structure Fetch where
  /-- Its number. -/
  id : ℕ
  /-- What it is for. -/
  kind : FetchKind
  /-- Whether the API has got it. -/
  reached : Bool
  /-- The answer, from when it is given. -/
  answer : Option DeepResponse

/-- The second effect while it is not cancelled. -/
inductive Poller where
  /-- The timer of the next poll is set. -/
  | waiting
  /-- The request of this number has no answer yet. -/
  | asking (id : ℕ)
  /-- A poll was answered as done. -/
  | finished
  deriving DecidableEq

/-- The two states that the component renders. -/
structure Look where
  /-- `state`; an answer without a status, as to an invalid domain, is `invalid`. -/
  shown : DeepResponse
  /-- `running` -/
  running : Bool

/-- The state of the component. -/
structure Page extends Look where
  /-- What the latest render saw; the states may have been set since. -/
  rendered : Look
  /-- The value of `running` for which the second effect has run last. -/
  effectFor : Bool
  /-- The second effect. -/
  poller : Option Poller

/-- `state.status === "idle"` -/
def isIdle : DeepResponse → Bool
  | .idle _ => true
  | _ => false

/-- `state.status === "pending"` -/
def isPending : DeepResponse → Bool
  | .pending _ => true
  | _ => false

/-- `state.status === "done"` -/
def isDone : DeepResponse → Bool
  | .done _ _ => true
  | _ => false

/-- What the panel looks like. -/
inductive View where
  /-- The button that starts a scan. -/
  | button
  /-- The note that the page is being loaded and analysed. -/
  | loading
  /-- The report. -/
  | report (report : DeepReport)
  deriving DecidableEq

/-- The branches of the component. -/
def Look.view (l : Look) : View :=
  if isIdle l.shown && !l.running then .button
  else if l.running then .loading
  else
    match l.shown with
    | .done _ report => .report report
    | _ => .loading

namespace Page

variable (p : Page)

/-- What the user sees. -/
def view : View := p.rendered.view

/-- The effects of the latest render run: the second one is cancelled and run
again when `running` is not what it has run for. -/
def flush : Page :=
  if p.effectFor=p.rendered.running then p
  else
    {p with
      effectFor := p.rendered.running
      poller := if p.rendered.running then some .waiting else none}

/-- The component is rendered with all that has been set, behind the effects of
the render before. -/
def render : Page := {p.flush with rendered := p.toLook}

/-- The page when it is rendered and the effects have run. -/
def settled : Page := p.render.flush

/-- The answer to the request of the first effect. -/
def onMount (answer : DeepResponse) : Page :=
  {p with shown := answer, running := p.running || isPending answer}

/-- The answer to the request of `start`. -/
def onStart (answer : DeepResponse) : Page :=
  {p with shown := answer, running := p.running && !isDone answer}

/-- The answer to a request of `poll`; a cancelled one does nothing. -/
def onPoll (id : ℕ) (answer : DeepResponse) : Page :=
  if p.poller=some (.asking id) then
    {p with
      shown := answer
      running := p.running && !isDone answer
      poller := some (if isDone answer then .finished else .waiting)}
  else p

/-- The answer to a request. -/
def onAnswer (kind : FetchKind) (id : ℕ) (answer : DeepResponse) : Page :=
  match kind with
  | .mount => p.onMount answer
  | .poll => p.onPoll id answer
  | .start => p.onStart answer

/-- A request that fails, or whose answer is no JSON: a poll that is not
cancelled sets the next timer. -/
def onFailure (kind : FetchKind) (id : ℕ) : Page :=
  if kind=.poll ∧ p.poller=some (.asking id) then {p with poller := some .waiting} else p

end Page

/-- The API, the panel and the requests of the panel that are under way. -/
structure System where
  /-- The API with its Redis and the scans. -/
  api : DeepApi
  /-- The panel. -/
  page : Page
  /-- The requests of the panel. -/
  fetches : List Fetch
  /-- Number of the next request. -/
  nextFetch : ℕ

/-- One step of the whole. -/
inductive Event where
  /-- The API takes a step: a request of somebody else, the second command of
  any request, a command of a scan or an admin, or the passing of time. -/
  | api (e : DeepScans.Event)
  /-- A request of the panel reaches the API. -/
  | reach (id : ℕ)
  /-- A start is refused by the rate limit. -/
  | refuse (id : ℕ)
  /-- The answer to a request reaches the panel. -/
  | deliver (id : ℕ)
  /-- A request fails. -/
  | fail (id : ℕ)
  /-- The user clicks the button. -/
  | click
  /-- The timer of the next poll fires. -/
  | timer
  /-- What has been set is rendered. -/
  | render
  /-- The effects of the latest render run. -/
  | effects

/-- Number under which the API knows a request of the panel. -/
def clientOf (id : ℕ) : ℕ := 2*id

/-- Other clients have the numbers that no request of the panel has. -/
def ofOthers : DeepScans.Event → DeepScans.Event
  | .getResult client domain => .getResult (2*client+1) domain
  | .postResult client domain => .postResult (2*client+1) domain
  | e => e

/-- A request gets the answer that the API gives to it, and no second one. -/
def answered (given : Option (ℕ×DeepResponse)) (f : Fetch) : Fetch :=
  match given with
  | some (client,answer) =>
    if client=clientOf f.id then {f with answer := f.answer.or (some answer)} else f
  | none => f

/-- The API takes a step, and the panel's requests get what it answers. -/
def System.serve (s : System) (e : DeepScans.Event) : System :=
  {s with
    api := DeepScans.step s.api e
    fetches := s.fetches.map (answered (respond s.api e))}

/-- The request of this number. -/
def System.fetch (s : System) (id : ℕ) : Option Fetch := s.fetches.find? fun f => f.id=id

/-- The request of this number changes. -/
def System.update (s : System) (id : ℕ) (change : Fetch → Fetch) : System :=
  {s with fetches := s.fetches.map fun f => if f.id=id then change f else f}

/-- The request of this number is over. -/
def System.drop (s : System) (id : ℕ) : System :=
  {s with fetches := s.fetches.filter fun f => f.id≠id}

/-- The panel sends a request. -/
def System.send (s : System) (kind : FetchKind) : System :=
  {s with
    fetches := s.fetches++[⟨s.nextFetch,kind,false,none⟩]
    nextFetch := s.nextFetch+1}

section Steps

variable (raw : Text)

/-- The first command of the API for a request of the panel. -/
def firstCommand (f : Fetch) : DeepScans.Event :=
  match f.kind with
  | .start => .postResult (clientOf f.id) raw
  | _ => .getResult (clientOf f.id) raw

/-- A request that was under way reaches the API. -/
def reachStep (s : System) (id : ℕ) : System :=
  match s.fetch id with
  | none => s
  | some f =>
    if f.reached then s
    else (s.update id fun g => {g with reached := true}).serve (firstCommand raw f)

/-- The rate limit answers a start with an object that has no status. -/
def refuseStep (s : System) (id : ℕ) : System :=
  match s.fetch id with
  | none => s
  | some f =>
    if f.kind=.start ∧ f.reached=false then
      s.update id fun g => {g with reached := true, answer := g.answer.or (some .invalid)}
    else s

/-- The answer of a request reaches the panel. -/
def deliverStep (s : System) (id : ℕ) : System :=
  match s.fetch id with
  | none => s
  | some f =>
    match f.answer with
    | none => s
    | some answer => {s.drop id with page := s.page.onAnswer f.kind id answer}

/-- A request fails. -/
def failStep (s : System) (id : ℕ) : System :=
  match s.fetch id with
  | none => s
  | some f => {s.drop id with page := s.page.onFailure f.kind id}

/-- A click on the button, when it is there, is rendered at once. -/
def clickStep (s : System) : System :=
  match s.page.view with
  | .button => {s.send .start with page := ({s.page with running := true} : Page).render}
  | _ => s

/-- The timer fires, when it is set. -/
def timerStep (s : System) : System :=
  if s.page.poller=some .waiting then
    {s.send .poll with page := {s.page with poller := some (.asking s.nextFetch)}}
  else s

/-- One step of the whole. -/
def step (s : System) : Event → System
  | .api e => s.serve (ofOthers e)
  | .reach id => reachStep raw s id
  | .refuse id => refuseStep s id
  | .deliver id => deliverStep s id
  | .fail id => failStep s id
  | .click => clickStep s
  | .timer => timerStep s
  | .render => {s with page := s.page.render}
  | .effects => {s with page := s.page.flush}

/-- The panel has just been opened, and nobody has asked for anything before. -/
def start : System where
  api := DeepApi.init
  page := ⟨⟨.idle raw,false⟩,⟨.idle raw,false⟩,false,none⟩
  fetches := [⟨0,.mount,false,none⟩]
  nextFetch := 1

end Steps

/-- Once it is rendered and its effects have run, the panel says that the page is
being loaded, and has neither a timer nor a request of its own. -/
def Stuck (p : Page) : Prop :=
  p.settled.view=.loading ∧ ∀ q, p.settled.poller=some q → q=.finished

/-- Behind the answer that has ended the polling comes another one: one that
says neither idle nor done, for a start or for a poll that is not cancelled, or
before that end is rendered the one of the first effect, when it is pending. -/
def Late (s : System) : Event → Prop
  | .deliver id => ∃ f answer, s.fetch id=some f ∧ f.answer=some answer ∧
      ((s.page.running=false ∧ isIdle answer=false ∧ isDone answer=false ∧
          (f.kind=.start ∨ (f.kind=.poll ∧ s.page.poller=some (.asking id)))) ∨
        (f.kind=.mount ∧ isPending answer=true ∧ s.page.rendered.running=true ∧
          s.page.poller=some .finished))
  | _ => False

/-- An answer that the API gives for the domain: a report is one that was
stored, and only a start may be told nothing. -/
def Genuine (d : Text) (Seen : DeepReport → Prop) (kind : FetchKind) : DeepResponse → Prop
  | .done domain report => domain=d ∧ Seen report
  | .invalid => kind=.start
  | _ => True

/-- A poll whose answer the second effect waits for is under way. -/
def Asks (p : Page) (fetches : List Fetch) : Prop :=
  ∀ id, p.poller=some (.asking id) → ∃ f∈fetches, f.id=id ∧ f.kind=.poll

/-- The second effect has its timer set, or a poll under way. -/
def Polls (p : Page) (fetches : List Fetch) : Prop :=
  p.poller=some .waiting ∨ ∃ f∈fetches, p.poller=some (.asking f.id) ∧ f.kind=.poll

/-- The panel and its requests, when the reports that were stored for the domain
are among those that are seen. -/
structure Fits (d : Text) (Seen : DeepReport → Prop) (p : Page) (fetches : List Fetch) :
    Prop where
  /-- A report that is set is one of the domain. -/
  shown : ∀ domain report, p.shown=.done domain report → domain=d ∧ Seen report
  /-- So is one that is rendered. -/
  rendered : ∀ domain report, p.rendered.shown=.done domain report → domain=d ∧ Seen report
  /-- The poll that the panel waits for is under way. -/
  asks : Asks p fetches
  /-- The second effect does something exactly when it has run for true. -/
  tracks : p.poller=none ↔ p.effectFor=false

/-- The panel, its requests and what waits for them at the API. -/
structure Sound (d : Text) (Seen : DeepReport → Prop) (s : System) : Prop where
  /-- What waits for a request of the panel is about the domain. -/
  waiting : ∀ r∈s.api.gets++s.api.posts, ∀ id, r.client=clientOf id → r.domain=d
  /-- Answers are about the domain. -/
  answers : ∀ f∈s.fetches, ∀ answer, f.answer=some answer → Genuine d Seen f.kind answer
  /-- The panel fits its requests. -/
  page : Fits d Seen s.page s.fetches
  /-- Numbers of requests are not used again. -/
  fresh : ∀ f∈s.fetches, f.id < s.nextFetch
  /-- No two requests have one number. -/
  nodup : (s.fetches.map (·.id)).Nodup

section Panel

variable {d : Text} {Seen : DeepReport → Prop} {p : Page} {fetches : List Fetch}

/-- The request of a number is one of the requests. -/
theorem fetch_eq_some {s : System} {id : ℕ} {f : Fetch} (h : s.fetch id=some f) :
    f∈s.fetches ∧ f.id=id := by
  rw [System.fetch] at h
  exact ⟨List.mem_of_find?_eq_some h,by simpa only [decide_eq_true_eq] using List.find?_some h⟩

/-- A request reaches the API, or nothing happens. -/
theorem reachStep_cases (raw : Text) (s : System) (id : ℕ) :
    reachStep raw s id=s ∨ ∃ f, s.fetch id=some f ∧ reachStep raw s id=
      (s.update id fun g => {g with reached := true}).serve (firstCommand raw f) := by
  rw [reachStep]
  split
  · exact .inl rfl
  · rename_i f hf
    split
    · exact .inl rfl
    · exact .inr ⟨f,hf,rfl⟩

/-- A start is refused, or nothing happens. -/
theorem refuseStep_cases (s : System) (id : ℕ) :
    refuseStep s id=s ∨ ∃ f, s.fetch id=some f ∧ f.kind=.start ∧ refuseStep s id=
      s.update id fun g => {g with reached := true, answer := g.answer.or (some .invalid)} := by
  rw [refuseStep]
  split
  · exact .inl rfl
  · rename_i f hf
    split
    · rename_i hstart
      exact .inr ⟨f,hf,hstart.1,rfl⟩
    · exact .inl rfl

/-- A request without an answer has none delivered; one that has it is over. -/
theorem deliverStep_cases (s : System) (id : ℕ) :
    (deliverStep s id=s ∧ ∀ f, s.fetch id=some f → f.answer=none) ∨
      ∃ f answer, s.fetch id=some f ∧ f.answer=some answer ∧
        deliverStep s id={s.drop id with page := s.page.onAnswer f.kind id answer} := by
  rw [deliverStep]
  split
  · rename_i hnone
    exact .inl ⟨rfl,fun f hf => by rw [hnone] at hf; cases hf⟩
  · rename_i f hf
    split
    · rename_i hnone
      exact .inl ⟨rfl,fun g hg => by rw [←Option.some.inj (hf.symm.trans hg)]; exact hnone⟩
    · rename_i answer hanswer
      exact .inr ⟨f,answer,hf,hanswer,rfl⟩

/-- A request that is there fails and is over. -/
theorem failStep_cases (s : System) (id : ℕ) :
    failStep s id=s ∨ ∃ f, s.fetch id=some f ∧
      failStep s id={s.drop id with page := s.page.onFailure f.kind id} := by
  rw [failStep]
  split
  · exact .inl rfl
  · rename_i f hf
    exact .inr ⟨f,hf,rfl⟩

/-- A click sends a start where the button is, and does nothing elsewhere. -/
theorem clickStep_cases (s : System) :
    clickStep s=s ∨ (s.page.rendered.running=false ∧ clickStep s=
      {s.send .start with page := ({s.page with running := true} : Page).render}) := by
  rw [clickStep]
  split
  · rename_i hbutton
    refine .inr ⟨?_,rfl⟩
    rw [Page.view,Look.view] at hbutton
    cases hrunning : s.page.rendered.running with
    | false => rfl
    | true => simp [hrunning] at hbutton
  · exact .inl rfl

/-- A timer that is set sends a poll. -/
theorem timerStep_cases (s : System) :
    timerStep s=s ∨ (s.page.poller=some .waiting ∧ timerStep s=
      {s.send .poll with page := {s.page with poller := some (.asking s.nextFetch)}}) := by
  rw [timerStep]
  split
  · rename_i hwaiting
    exact .inr ⟨hwaiting,rfl⟩
  · exact .inl rfl

/-- The effects of a render leave what it saw and what has been set. -/
theorem flush_keeps (p : Page) : p.flush.toLook=p.toLook ∧ p.flush.rendered=p.rendered := by
  rw [Page.flush]
  split <;> exact ⟨rfl,rfl⟩

/-- The effects of a render leave the second effect as it was, or cancel it, or
start it with its timer. -/
theorem poller_flush (p : Page) :
    (p.effectFor=p.rendered.running ∧ p.flush=p) ∨
      (p.effectFor≠p.rendered.running ∧ p.flush.effectFor=p.rendered.running ∧
        p.flush.poller=if p.rendered.running then some .waiting else none) := by
  rw [Page.flush]
  split
  · exact .inl ⟨by assumption,rfl⟩
  · exact .inr ⟨by assumption,rfl,rfl⟩

/-- A second effect that waits for an answer, or has ended, did so before the
effects of a render. -/
theorem flush_poller {q : Poller} (hq : q≠.waiting) (h : p.flush.poller=some q) :
    p.flush=p ∧ p.effectFor=p.rendered.running := by
  rcases poller_flush p with ⟨heffect,hsame⟩ | ⟨-,-,hpoller⟩
  · exact ⟨hsame,heffect⟩
  · rw [hpoller] at h
    split at h
    · exact absurd (Option.some.inj h).symm hq
    · cases h

/-- A second effect that has ended has ended for a render that was running. -/
theorem Fits.ended (h : Fits d Seen p fetches) (hfinished : p.flush.poller=some .finished) :
    p.rendered.running=true ∧ p.poller=some .finished := by
  obtain ⟨hsame,heffect⟩ := flush_poller (fun hq => by cases hq) hfinished
  rw [hsame] at hfinished
  rw [←heffect,←Bool.not_eq_false,←h.tracks,hfinished]
  exact ⟨Option.some_ne_none _,rfl⟩

/-- The panel fits other requests, as long as that of its poll is there. -/
theorem Fits.keep (h : Fits d Seen p fetches) {rest : List Fetch}
    (hrest : ∀ f∈fetches, f.kind=.poll → p.poller=some (.asking f.id) →
      ∃ g∈rest, g.id=f.id ∧ g.kind=.poll) : Fits d Seen p rest where
  shown := h.shown
  rendered := h.rendered
  asks id hid := by
    obtain ⟨f,hf,rfl,hkind⟩ := h.asks id hid
    exact hrest f hf hkind hid
  tracks := h.tracks

/-- The effects of a render leave the panel fitting. -/
theorem Fits.flush (h : Fits d Seen p fetches) : Fits d Seen p.flush fetches where
  shown := by
    rw [(flush_keeps p).1]
    exact h.shown
  rendered := by
    rw [(flush_keeps p).2]
    exact h.rendered
  asks id hid := by
    rw [(flush_poller (fun hq => by cases hq) hid).1] at hid
    exact h.asks id hid
  tracks := by
    rcases poller_flush p with ⟨-,hsame⟩ | ⟨-,heffect,hpoller⟩
    · rw [hsame]
      exact h.tracks
    · rw [heffect,hpoller]
      cases p.rendered.running <;> simp

/-- So does a render. -/
theorem Fits.render (h : Fits d Seen p fetches) : Fits d Seen p.render fetches where
  shown := h.flush.shown
  rendered := h.shown
  asks := h.flush.asks
  tracks := h.flush.tracks

/-- So does a callback that sets an answer for the domain. -/
theorem Fits.set (h : Fits d Seen p fetches) {kind : FetchKind} {answer : DeepResponse}
    (hanswer : Genuine d Seen kind answer) (running : Bool) :
    Fits d Seen {p with shown := answer, running := running} fetches where
  shown domain report hshown := by
    obtain rfl : answer=.done domain report := hshown
    exact hanswer
  rendered := h.rendered
  asks := h.asks
  tracks := h.tracks

/-- So does the poll that sets the timer of the next one, or is the last one. -/
theorem Fits.next (h : Fits d Seen p fetches) {id : ℕ} (hasks : p.poller=some (.asking id))
    {q : Poller} (hq : ∀ other, q≠.asking other) (rest : List Fetch) :
    Fits d Seen {p with poller := some q} rest where
  shown := h.shown
  rendered := h.rendered
  asks other hother := absurd (Option.some.inj hother) (hq other)
  tracks := by
    refine iff_of_false (Option.some_ne_none q) fun heffect => ?_
    rw [h.tracks.mpr heffect] at hasks
    cases hasks

/-- What goes on with a request that the second effect does not wait for leaves
the poll that it waits for. -/
theorem poll_remains (hnodup : (fetches.map (·.id)).Nodup) {f : Fetch} (hf : f∈fetches)
    (hnot : ¬(f.kind=.poll ∧ p.poller=some (.asking f.id))) :
    ∀ g∈fetches, g.kind=.poll → p.poller=some (.asking g.id) →
      ∃ g'∈fetches.filter (fun g => g.id≠f.id), g'.id=g.id ∧ g'.kind=.poll := by
  intro g hg hpoll hasks
  refine ⟨g,List.mem_filter.mpr ⟨hg,decide_eq_true fun hid => hnot ?_⟩,rfl,hpoll⟩
  rw [←List.inj_on_of_nodup_map hnodup hg hf hid]
  exact ⟨hpoll,hasks⟩

/-- The answer to a request leaves the panel fitting, though the request is over. -/
theorem Fits.onAnswer (h : Fits d Seen p fetches) (hnodup : (fetches.map (·.id)).Nodup)
    {f : Fetch} (hf : f∈fetches) {answer : DeepResponse} (hanswer : Genuine d Seen f.kind answer) :
    Fits d Seen (p.onAnswer f.kind f.id answer) (fetches.filter fun g => g.id≠f.id) := by
  cases hkind : f.kind with
  | mount =>
    exact (h.keep (poll_remains hnodup hf (by simp [hkind]))).set hanswer _
  | start =>
    exact (h.keep (poll_remains hnodup hf (by simp [hkind]))).set hanswer _
  | poll =>
    rw [Page.onAnswer,Page.onPoll]
    split
    · rename_i hasks
      refine (h.next hasks ?_ _).set hanswer _
      intro other
      split <;> exact fun hq => by cases hq
    · rename_i hasks
      exact h.keep (poll_remains hnodup hf fun hpoll => hasks hpoll.2)

/-- A failure leaves the panel fitting, too. -/
theorem Fits.onFailure (h : Fits d Seen p fetches) (hnodup : (fetches.map (·.id)).Nodup)
    {f : Fetch} (hf : f∈fetches) :
    Fits d Seen (p.onFailure f.kind f.id) (fetches.filter fun g => g.id≠f.id) := by
  rw [Page.onFailure]
  split
  · rename_i hpoll
    exact h.next hpoll.2 (fun _ hq => by cases hq) _
  · rename_i hnot
    exact h.keep (poll_remains hnodup hf hnot)

/-- The panel that is settled is rendered with what has been set, and its effect
has run for that. -/
theorem settled_spec (p : Page) :
    p.settled.rendered=p.toLook ∧ p.settled.effectFor=p.running := by
  refine ⟨(flush_keeps p.render).2,?_⟩
  rcases poller_flush p.render with ⟨heffect,hsame⟩ | ⟨-,heffect,-⟩
  · rw [Page.settled,hsame]
    exact heffect
  · exact heffect

/-- A panel that is running and not stuck polls, once it is settled. -/
theorem Fits.polls (h : Fits d Seen p fetches) (hrunning : p.running=true) (hfree : ¬Stuck p) :
    Polls p.settled fetches := by
  obtain ⟨hrendered,heffect⟩ := settled_spec p
  have hfits : Fits d Seen p.settled fetches := h.render.flush
  cases hpoller : p.settled.poller with
  | none =>
    rw [hfits.tracks.mp hpoller,hrunning] at heffect
    cases heffect
  | some q =>
    cases q with
    | waiting => exact .inl hpoller
    | asking id =>
      obtain ⟨f,hf,rfl,hkind⟩ := hfits.asks id hpoller
      exact .inr ⟨f,hf,hpoller,hkind⟩
    | finished =>
      refine absurd ⟨?_,fun q hq => ?_⟩ hfree
      · rw [Page.view,hrendered,Look.view,hrunning]
        simp
      · rw [hpoller] at hq
        exact (Option.some.inj hq).symm

/-- The panel is stuck when it has ended the polling without a report, or when
the effect that has ended it is not run again. -/
theorem stuck_iff (h : Fits d Seen p fetches) :
    Stuck p ↔ (p.running=false ∧ isIdle p.shown=false ∧ isDone p.shown=false) ∨
      (p.running=true ∧ p.rendered.running=true ∧ p.poller=some .finished) := by
  have htracks := h.tracks
  obtain ⟨⟨shown,running⟩,⟨old,rendered⟩,effectFor,poller⟩ := p
  cases running <;> cases rendered <;> cases effectFor <;> cases poller <;> cases shown <;>
    simp_all [Stuck,Page.settled,Page.render,Page.flush,Page.view,Look.view,isIdle,isDone]

end Panel

section Serving

/-- The API answers a request at its first command, for the result it finds, or
at its second one as pending or idle. -/
theorem respond_cases {s : DeepApi} {e : DeepScans.Event} {client : ℕ} {answer : DeepResponse}
    (h : respond s e=some (client,answer)) :
    (∃ raw, (e=.getResult client raw ∨ e=.postResult client raw) ∧
      firstAnswer s raw=some answer) ∨
    ∃ domain, answer=.pending domain ∨ answer=.idle domain := by
  cases e with
  | getResult other raw =>
    obtain ⟨given,hgiven,hpair⟩ := Option.map_eq_some_iff.mp h
    obtain ⟨rfl,rfl⟩ := Prod.mk.inj hpair
    exact .inl ⟨raw,.inl rfl,hgiven⟩
  | postResult other raw =>
    obtain ⟨given,hgiven,hpair⟩ := Option.map_eq_some_iff.mp h
    obtain ⟨rfl,rfl⟩ := Prod.mk.inj hpair
    exact .inl ⟨raw,.inr rfl,hgiven⟩
  | getLock i =>
    obtain ⟨r,-,hpair⟩ := Option.map_eq_some_iff.mp h
    obtain ⟨-,rfl⟩ := Prod.mk.inj hpair
    refine .inr ⟨r.domain,?_⟩
    split
    · exact .inl rfl
    · exact .inr rfl
  | postClaim i =>
    obtain ⟨r,-,hpair⟩ := Option.map_eq_some_iff.mp h
    obtain ⟨-,rfl⟩ := Prod.mk.inj hpair
    exact .inr ⟨r.domain,.inl rfl⟩
  | _ => cases h

/-- A first answer for a domain of that form is the result it finds. -/
theorem firstAnswer_eq_some {s : DeepApi} {raw d : Text} {answer : DeepResponse}
    (hraw : lookupDomain raw=some d) :
    firstAnswer s raw=some answer ↔ ∃ report, liveResult s d=some report ∧
      answer=.done d report := by
  rw [firstAnswer,hraw]
  dsimp only
  rw [Option.map_eq_some_iff]
  simp only [eq_comm]

/-- A request waits at the API from its first command on. -/
theorem waitingRequest_spec {s : DeepApi} {client : ℕ} {raw : Text} {r : DeepRequest}
    (h : r∈waitingRequest s client raw) :
    r.client=client ∧ lookupDomain raw=some r.domain := by
  rw [waitingRequest] at h
  cases hraw : lookupDomain raw with
  | none =>
    rw [hraw] at h
    cases h
  | some d =>
    rw [hraw] at h
    dsimp only at h
    split at h
    · rw [List.mem_singleton.mp h]
      exact ⟨rfl,rfl⟩
    · cases h

/-- What waits at the API behind a step has waited there before, or is the
request that has just come. -/
theorem waiting_step (s : DeepApi) (e : DeepScans.Event) {r : DeepRequest}
    (h : r∈(DeepScans.step s e).gets++(DeepScans.step s e).posts) :
    (∃ old∈s.gets++s.posts, old.client=r.client ∧ old.domain=r.domain) ∨
      ∃ raw, (e=.getResult r.client raw ∨ e=.postResult r.client raw) ∧
        lookupDomain raw=some r.domain := by
  have hsame (hr : r∈s.gets++s.posts) :
      ∃ old∈s.gets++s.posts, old.client=r.client ∧ old.domain=r.domain := ⟨r,hr,rfl,rfl⟩
  have hkept : ∀ t : DeepApi, t.gets.Sublist s.gets → t.posts.Sublist s.posts →
      r∈t.gets++t.posts → ∃ old∈s.gets++s.posts, old.client=r.client ∧ old.domain=r.domain :=
    fun t hgets hposts hr => hsame ((hgets.append hposts).subset hr)
  cases e with
  | getResult client raw =>
    rcases List.mem_append.mp h with hr | hr
    · rcases List.mem_append.mp hr with hr | hr
      · exact .inl (hsame (List.mem_append_left _ hr))
      · obtain ⟨rfl,hraw⟩ := waitingRequest_spec hr
        exact .inr ⟨raw,.inl rfl,hraw⟩
    · exact .inl (hsame (List.mem_append_right _ hr))
  | postResult client raw =>
    rcases List.mem_append.mp h with hr | hr
    · exact .inl (hsame (List.mem_append_left _ hr))
    · rcases List.mem_append.mp hr with hr | hr
      · exact .inl (hsame (List.mem_append_right _ hr))
      · obtain ⟨rfl,hraw⟩ := waitingRequest_spec hr
        exact .inr ⟨raw,.inr rfl,hraw⟩
  | getLock i =>
    refine .inl (hkept _ ?_ ?_ h) <;> rw [DeepScans.step,getLockStep] <;> split
    · exact List.Sublist.refl _
    · exact List.eraseIdx_sublist _ _
    · exact List.Sublist.refl _
    · exact List.Sublist.refl _
  | postClaim i =>
    rw [DeepScans.step] at h
    obtain ⟨-,hs⟩ | ⟨request,-,⟨lock,-,hs⟩ | ⟨-,hs⟩⟩ := postClaimStep_cases s i <;> rw [hs] at h
    · exact .inl (hsame h)
    · exact .inl (hkept {s with posts := s.posts.eraseIdx i} (List.Sublist.refl _)
        (List.eraseIdx_sublist _ _) h)
    · exact .inl (hkept {s with posts := s.posts.eraseIdx i} (List.Sublist.refl _)
        (List.eraseIdx_sublist _ _) h)
  | store id outcome =>
    rw [DeepScans.step] at h
    obtain hs | ⟨scan,-,-,hs⟩ := storeStep_cases s id outcome <;> rw [hs] at h
    · exact .inl (hsame h)
    · rcases List.mem_append.mp h with hr | hr
      · obtain ⟨old,hold,rfl⟩ := List.mem_map.mp hr
        refine .inl ⟨old,List.mem_append_left _ hold,?_⟩
        rw [DeepRequest.cross]
        split <;> exact ⟨rfl,rfl⟩
      · exact .inl (hsame (List.mem_append_right _ hr))
  | finish id =>
    rw [DeepScans.step] at h
    obtain hs | ⟨scan,-,-,-,hs⟩ := finishStep_cases s id <;> rw [hs] at h <;> exact .inl (hsame h)
  | tick seconds => exact .inl (hsame h)
  | deleteResult domain => exact .inl (hsame h)

variable {given : Option (ℕ×DeepResponse)} {f : Fetch}

/-- An answer leaves the number and the purpose of a request. -/
theorem answered_keeps : (answered given f).id=f.id ∧ (answered given f).kind=f.kind := by
  unfold answered
  split
  · split <;> exact ⟨rfl,rfl⟩
  · exact ⟨rfl,rfl⟩

/-- A request has its answer from before, or the one that is given to it. -/
theorem answer_answered {answer : DeepResponse} (h : (answered given f).answer=some answer) :
    f.answer=some answer ∨ given=some (clientOf f.id,answer) := by
  unfold answered at h
  split at h
  · split at h
    · rename_i client reply hclient
      rcases Option.or_eq_some_iff.mp h with hold | ⟨-,hnew⟩
      · exact .inl hold
      · rw [hclient,Option.some.inj hnew]
        exact .inr rfl
    · exact .inl h
  · exact .inl h

/-- A request keeps its answer. -/
theorem answered_of_answer {answer : DeepResponse} (h : f.answer=some answer) :
    (answered given f).answer=some answer := by
  unfold answered
  split
  · split
    · exact Option.or_eq_some_iff.mpr (.inl h)
    · exact h
  · exact h

variable {d : Text} {Seen : DeepReport → Prop} {s : System}

/-- A step of the API keeps the panel and its requests sound, when the requests
that it takes from the panel are about the domain. -/
theorem Sound.serve (h : Sound d Seen s) (hseen : ∀ report, liveResult s.api d=some report →
      Seen report) {e : DeepScans.Event}
    (hown : ∀ id raw, (e=.getResult (clientOf id) raw ∨ e=.postResult (clientOf id) raw) →
      lookupDomain raw=some d) : Sound d Seen (s.serve e) where
  waiting r hr id hclient := by
    rcases waiting_step s.api e hr with ⟨old,hold,hsame,hdomain⟩ | ⟨raw,he,hraw⟩
    · exact hdomain ▸ h.waiting old hold id (hsame.trans hclient)
    · rw [hclient] at he
      exact Option.some.inj (hraw.symm.trans (hown id raw he))
  answers f hf answer hanswer := by
    obtain ⟨g,hg,rfl⟩ := List.mem_map.mp hf
    rw [answered_keeps.2]
    rcases answer_answered hanswer with hold | hnew
    · exact h.answers g hg answer hold
    · rcases respond_cases hnew with ⟨raw,he,hfirst⟩ | ⟨domain,rfl | rfl⟩
      · obtain ⟨report,hlive,rfl⟩ := (firstAnswer_eq_some (hown g.id raw he)).mp hfirst
        exact ⟨rfl,hseen report hlive⟩
      · exact trivial
      · exact trivial
  page := h.page.keep fun f hf hkind _ =>
    ⟨_,List.mem_map_of_mem hf,answered_keeps.1,answered_keeps.2.trans hkind⟩
  fresh f hf := by
    obtain ⟨g,hg,rfl⟩ := List.mem_map.mp hf
    rw [answered_keeps.1]
    exact h.fresh g hg
  nodup := by
    have hids : (s.serve e).fetches.map (·.id)=s.fetches.map (·.id) := by
      rw [System.serve,List.map_map]
      exact List.map_congr_left fun f _ => answered_keeps.1
    rw [hids]
    exact h.nodup

end Serving

section Runs

variable {raw d : Text} {Seen : DeepReport → Prop} {s : System}

/-- A request that is over leaves the rest sound. -/
theorem Sound.drop (h : Sound d Seen s) {id : ℕ} {p : Page}
    (hpage : Fits d Seen p (s.drop id).fetches) : Sound d Seen {s.drop id with page := p} where
  waiting := h.waiting
  answers f hf := h.answers f (List.mem_of_mem_filter hf)
  page := hpage
  fresh f hf := h.fresh f (List.mem_of_mem_filter hf)
  nodup := h.nodup.sublist (List.filter_sublist.map _)

/-- A request that changes its answer or is reached leaves the rest sound. -/
theorem Sound.update (h : Sound d Seen s) (id : ℕ) {change : Fetch → Fetch}
    (hid : ∀ f, (change f).id=f.id) (hkind : ∀ f, (change f).kind=f.kind)
    (hanswer : ∀ f∈s.fetches, f.id=id → ∀ answer, (change f).answer=some answer →
      Genuine d Seen f.kind answer) : Sound d Seen (s.update id change) where
  waiting := h.waiting
  answers f hf answer hf' := by
    obtain ⟨g,hg,rfl⟩ := List.mem_map.mp hf
    by_cases hgid : g.id=id
    · rw [if_pos hgid] at hf' ⊢
      rw [hkind]
      exact hanswer g hg hgid answer hf'
    · rw [if_neg hgid] at hf' ⊢
      exact h.answers g hg answer hf'
  page := h.page.keep fun f hf hpoll _ => by
    refine ⟨_,List.mem_map_of_mem hf,?_⟩
    split
    · exact ⟨hid f,(hkind f).trans hpoll⟩
    · exact ⟨rfl,hpoll⟩
  fresh f hf := by
    obtain ⟨g,hg,rfl⟩ := List.mem_map.mp hf
    split
    · rw [hid]
      exact h.fresh g hg
    · exact h.fresh g hg
  nodup := by
    have hids : (s.update id change).fetches.map (·.id)=s.fetches.map (·.id) := by
      rw [System.update,List.map_map]
      refine List.map_congr_left fun f _ => ?_
      rw [Function.comp_apply]
      split
      · exact hid f
      · rfl
    rw [hids]
    exact h.nodup

/-- A new request leaves the rest sound. -/
theorem Sound.send (h : Sound d Seen s) (kind : FetchKind) {p : Page}
    (hpage : Fits d Seen p (s.send kind).fetches) : Sound d Seen {s.send kind with page := p} where
  waiting := h.waiting
  answers f hf answer hanswer := by
    rcases List.mem_append.mp hf with hf | hf
    · exact h.answers f hf answer hanswer
    · rw [List.mem_singleton.mp hf] at hanswer
      cases hanswer
  page := hpage
  fresh f hf := by
    rcases List.mem_append.mp hf with hf | hf
    · exact Nat.lt_succ_of_lt (h.fresh f hf)
    · rw [List.mem_singleton.mp hf]
      exact Nat.lt_succ_self _
  nodup := by
    have hids : (s.send kind).fetches.map (·.id)=s.fetches.map (·.id)++[s.nextFetch] :=
      List.map_append
    rw [hids]
    refine h.nodup.append (List.nodup_singleton _) fun id hid hnew => ?_
    obtain ⟨f,hf,rfl⟩ := List.mem_map.mp hid
    exact absurd (List.mem_singleton.mp hnew) (Nat.ne_of_lt (h.fresh f hf))

/-- So does what the panel does by itself. -/
theorem Sound.repaint (h : Sound d Seen s) {p : Page} (hpage : Fits d Seen p s.fetches) :
    Sound d Seen {s with page := p} :=
  ⟨h.waiting,h.answers,hpage,h.fresh,h.nodup⟩

/-- Every step keeps the panel and its requests sound, when the reports that
are stored now are among those that are seen. -/
theorem Sound.step (h : Sound d Seen s) (hraw : lookupDomain raw=some d)
    (hseen : ∀ report, liveResult s.api d=some report → Seen report) (e : Event) :
    Sound d Seen (step raw s e) := by
  cases e with
  | api e =>
    refine h.serve hseen fun id raw' he => ?_
    -- a request of somebody else has an odd number
    have hodd : ∀ client, 2*client+1≠clientOf id := fun client => by
      rw [clientOf]
      omega
    cases e with
    | getResult client domain =>
      rcases he with he | he
      · exact absurd (DeepScans.Event.getResult.inj he).1 (hodd client)
      · cases he
    | postResult client domain =>
      rcases he with he | he
      · cases he
      · exact absurd (DeepScans.Event.postResult.inj he).1 (hodd client)
    | _ => rcases he with he | he <;> cases he
  | reach id =>
    rw [DeepPages.step]
    obtain hs | ⟨f,-,hs⟩ := reachStep_cases raw s id <;> rw [hs]
    · exact h
    · have hmarked : Sound d Seen (s.update id fun g => {g with reached := true}) :=
        h.update id (fun _ => rfl) (fun _ => rfl) fun f hf _ => h.answers f hf
      refine hmarked.serve hseen fun other raw' he => ?_
      rw [firstCommand] at he
      split at he
      · rcases he with he | he
        · cases he
        · rw [←(DeepScans.Event.postResult.inj he).2]
          exact hraw
      · rcases he with he | he
        · rw [←(DeepScans.Event.getResult.inj he).2]
          exact hraw
        · cases he
  | refuse id =>
    rw [DeepPages.step]
    obtain hs | ⟨f,hf,hstart,hs⟩ := refuseStep_cases s id <;> rw [hs]
    · exact h
    · refine h.update id (fun _ => rfl) (fun _ => rfl) fun g hg hid answer hanswer => ?_
      rcases Option.or_eq_some_iff.mp hanswer with hold | ⟨-,hnew⟩
      · exact h.answers g hg answer hold
      · obtain ⟨hmem,hfid⟩ := fetch_eq_some hf
        rw [←Option.some.inj hnew,List.inj_on_of_nodup_map h.nodup hg hmem (hid.trans hfid.symm)]
        exact hstart
  | deliver id =>
    rw [DeepPages.step]
    obtain ⟨hs,-⟩ | ⟨f,answer,hf,hanswer,hs⟩ := deliverStep_cases s id <;> rw [hs]
    · exact h
    · obtain ⟨hmem,rfl⟩ := fetch_eq_some hf
      exact h.drop (h.page.onAnswer h.nodup hmem (h.answers f hmem answer hanswer))
  | fail id =>
    rw [DeepPages.step]
    obtain hs | ⟨f,hf,hs⟩ := failStep_cases s id <;> rw [hs]
    · exact h
    · obtain ⟨hmem,rfl⟩ := fetch_eq_some hf
      exact h.drop (h.page.onFailure h.nodup hmem)
  | click =>
    rw [DeepPages.step]
    obtain hs | ⟨-,hs⟩ := clickStep_cases s <;> rw [hs]
    · exact h
    · have hclicked : Fits d Seen {s.page with running := true} (s.send .start).fetches :=
        ⟨h.page.shown,h.page.rendered,(h.page.keep fun f hf hpoll _ =>
          ⟨f,List.mem_append_left _ hf,rfl,hpoll⟩).asks,h.page.tracks⟩
      exact h.send .start hclicked.render
  | timer =>
    rw [DeepPages.step]
    obtain hs | ⟨hwaiting,hs⟩ := timerStep_cases s <;> rw [hs]
    · exact h
    · refine h.send .poll ⟨h.page.shown,h.page.rendered,fun id hid => ?_,?_⟩
      · obtain rfl : s.nextFetch=id := Poller.asking.inj (Option.some.inj hid)
        exact ⟨_,List.mem_append_right _ List.mem_cons_self,rfl,rfl⟩
      · refine iff_of_false (Option.some_ne_none _) fun heffect => ?_
        rw [h.page.tracks.mpr heffect] at hwaiting
        cases hwaiting
  | render => exact h.repaint h.page.render
  | effects => exact h.repaint h.page.flush

/-- Seeing more keeps everything sound. -/
theorem Sound.mono (h : Sound d Seen s) {Seen' : DeepReport → Prop}
    (hmore : ∀ report, Seen report → Seen' report) : Sound d Seen' s where
  waiting := h.waiting
  answers f hf answer hanswer := by
    have hgenuine := h.answers f hf answer hanswer
    cases answer with
    | done domain report => exact ⟨hgenuine.1,hmore report hgenuine.2⟩
    | _ => exact hgenuine
  page := ⟨fun domain report hshown =>
      (h.page.shown domain report hshown).imp_right (hmore report),
    fun domain report hshown => (h.page.rendered domain report hshown).imp_right (hmore report),
    h.page.asks,h.page.tracks⟩
  fresh := h.fresh
  nodup := h.nodup

/-- A panel that has just been opened is sound. -/
theorem sound_start : Sound d Seen (start raw) where
  waiting r hr := absurd hr List.not_mem_nil
  answers f hf answer hanswer := by
    rw [List.mem_singleton.mp hf] at hanswer
    cases hanswer
  page := ⟨fun _ _ hshown => (by cases hshown),fun _ _ hshown => (by cases hshown),
    fun _ hasks => (by cases hasks),iff_of_true rfl rfl⟩
  fresh f hf := by
    rw [List.mem_singleton.mp hf]
    exact Nat.zero_lt_one
  nodup := List.nodup_singleton 0

/-- A report that the API held for the domain at some moment of the run. -/
def WasStored (raw d : Text) (events : List Event) (report : DeepReport) : Prop :=
  ∃ pre post, events=pre++post ∧
    liveResult (run (step raw) (start raw) pre).api d=some report

/-- In every run the panel and its requests are sound for the reports that were
stored on the way. -/
theorem sound_run (hraw : lookupDomain raw=some d) (events : List Event) :
    Sound d (WasStored raw d events) (run (step raw) (start raw) events) := by
  induction events using List.reverseRecOn with
  | nil => exact sound_start
  | append_singleton events e ih =>
    have hmore : ∀ report, WasStored raw d events report →
        WasStored raw d (events++[e]) report := by
      intro report hstored
      obtain ⟨pre,post,rfl,hlive⟩ := hstored
      exact ⟨pre,post++[e],List.append_assoc _ _ _,hlive⟩
    rw [run_append,run_cons,run_nil]
    exact (ih.mono hmore).step hraw (fun report hlive => ⟨events,[e],rfl,hlive⟩) e

/-- What leaves the states and the second effect does not leave the panel stuck. -/
theorem not_stuck_of_eq {p q : Page} {fetches rest : List Fetch} (hp : Fits d Seen p fetches)
    (hfree : ¬Stuck p) (hq : Fits d Seen q rest) (hstates : q.toLook=p.toLook)
    (hended : q.rendered.running=true → q.poller=some .finished →
      p.rendered.running=true ∧ p.poller=some .finished) : ¬Stuck q := by
  rw [stuck_iff hp] at hfree
  rw [stuck_iff hq,hstates]
  exact mt (Or.imp_right fun ⟨hrunning,hrendered,hpoller⟩ =>
    ⟨hrunning,hended hrendered hpoller⟩) hfree

/-- An answer leaves the panel stuck exactly when it is late. -/
theorem stuck_onAnswer {p : Page} {fetches rest : List Fetch} (hp : Fits d Seen p fetches)
    (hfree : ¬Stuck p) {kind : FetchKind} {id : ℕ} {answer : DeepResponse}
    (hgenuine : Genuine d Seen kind answer) (hq : Fits d Seen (p.onAnswer kind id answer) rest) :
    Stuck (p.onAnswer kind id answer) ↔
      (p.running=false ∧ isIdle answer=false ∧ isDone answer=false ∧
          (kind=.start ∨ (kind=.poll ∧ p.poller=some (.asking id)))) ∨
        (kind=.mount ∧ isPending answer=true ∧ p.rendered.running=true ∧
          p.poller=some .finished) := by
  rw [stuck_iff hp,not_or] at hfree
  rw [stuck_iff hq]
  cases kind with
  | mount =>
    have hended := hfree.2
    cases answer with
    | invalid => cases hgenuine
    | done domain report => simpa [Page.onAnswer,Page.onMount,isDone,isPending] using hended
    | pending domain => simp [Page.onAnswer,Page.onMount,isPending]
    | idle domain => simpa [Page.onAnswer,Page.onMount,isIdle,isPending] using hended
  | start =>
    have hended := hfree.2
    cases hdone : isDone answer with
    | true => simp [Page.onAnswer,Page.onStart,hdone]
    | false =>
      simpa [Page.onAnswer,Page.onStart,hdone] using
        fun hrunning hrendered hfinished => absurd ⟨hrunning,hrendered,hfinished⟩ hended
  | poll =>
    by_cases hasks : p.poller=some (.asking id)
    · cases hdone : isDone answer <;> simp [Page.onAnswer,Page.onPoll,hdone,hasks]
    · rw [Page.onAnswer,Page.onPoll,if_neg hasks]
      simpa [hasks] using hfree

/-- The panel gets stuck at a late answer, and at no other step. -/
theorem stuck_step (h : Sound d Seen s) (hraw : lookupDomain raw=some d)
    (hseen : ∀ report, liveResult s.api d=some report → Seen report) (hfree : ¬Stuck s.page)
    (e : Event) : Stuck (step raw s e).page ↔ Late s e := by
  have hnext := (h.step hraw hseen e).page
  cases e with
  | api e => exact iff_of_false hfree not_false
  | reach id =>
    refine iff_of_false ?_ not_false
    rw [DeepPages.step]
    obtain hs | ⟨f,-,hs⟩ := reachStep_cases raw s id <;> rw [hs] <;> exact hfree
  | refuse id =>
    refine iff_of_false ?_ not_false
    rw [DeepPages.step]
    obtain hs | ⟨f,-,-,hs⟩ := refuseStep_cases s id <;> rw [hs] <;> exact hfree
  | deliver id =>
    rw [DeepPages.step] at hnext ⊢
    obtain ⟨hs,hnone⟩ | ⟨f,answer,hf,hanswer,hs⟩ := deliverStep_cases s id <;>
      rw [hs] at hnext ⊢
    · refine iff_of_false hfree fun hlate => ?_
      obtain ⟨f,answer,hf,hanswer,-⟩ := hlate
      rw [hnone f hf] at hanswer
      cases hanswer
    · rw [stuck_onAnswer h.page hfree (h.answers f (fetch_eq_some hf).1 answer hanswer) hnext]
      simp [Late,hf,hanswer]
  | fail id =>
    refine iff_of_false ?_ not_false
    rw [DeepPages.step] at hnext ⊢
    obtain hs | ⟨f,-,hs⟩ := failStep_cases s id <;> rw [hs] at hnext ⊢
    · exact hfree
    · refine not_stuck_of_eq h.page hfree hnext ?_ ?_ <;> dsimp only <;> rw [Page.onFailure]
      · split <;> rfl
      · split
        · intro _ hfinished
          cases hfinished
        · exact And.intro
  | click =>
    refine iff_of_false ?_ not_false
    rw [DeepPages.step] at hnext ⊢
    obtain hs | ⟨hrendered,hs⟩ := clickStep_cases s <;> rw [hs] at hnext ⊢
    · exact hfree
    · have hclicked : Fits d Seen {s.page with running := true} s.fetches :=
        ⟨h.page.shown,h.page.rendered,h.page.asks,h.page.tracks⟩
      rw [stuck_iff hnext]
      rintro (⟨hrunning,-⟩ | ⟨-,-,hfinished⟩)
      · exact nomatch (congrArg Look.running (flush_keeps _).1).symm.trans hrunning
      · -- the effect that has ended had been cancelled for the button
        exact absurd (hclicked.ended hfinished).1 (by simp [hrendered])
  | timer =>
    refine iff_of_false ?_ not_false
    rw [DeepPages.step] at hnext ⊢
    obtain hs | ⟨-,hs⟩ := timerStep_cases s <;> rw [hs] at hnext ⊢
    · exact hfree
    · exact not_stuck_of_eq h.page hfree hnext rfl fun _ hfinished => nomatch hfinished
  | render =>
    refine iff_of_false (not_stuck_of_eq h.page hfree hnext ?_ ?_) not_false
    · exact (flush_keeps s.page).1
    · exact fun _ hfinished => h.page.ended hfinished
  | effects =>
    refine iff_of_false (not_stuck_of_eq h.page hfree hnext ?_ ?_) not_false
    · exact (flush_keeps s.page).1
    · exact fun _ hfinished => h.page.ended hfinished

/-- The panel is never stuck in a run exactly when no answer of it is late. -/
theorem never_stuck_iff (hraw : lookupDomain raw=some d) (events : List Event) :
    (∀ pre post, events=pre++post → ¬Stuck (run (step raw) (start raw) pre).page) ↔
      Along (step raw) (fun s e => ¬Late s e) (start raw) events := by
  induction events using List.reverseRecOn with
  | nil =>
    refine iff_of_true (fun pre post hnil => ?_) trivial
    rw [(List.append_eq_nil_iff.mp hnil.symm).1]
    exact fun hstuck => by cases hstuck.1
  | append_singleton events e ih =>
    have hsplits : (∀ pre post, events++[e]=pre++post →
          ¬Stuck (run (step raw) (start raw) pre).page) ↔
        (∀ pre post, events=pre++post → ¬Stuck (run (step raw) (start raw) pre).page) ∧
          ¬Stuck (run (step raw) (start raw) (events++[e])).page := by
      constructor
      · intro h
        refine ⟨fun pre post hpre => h pre (post++[e]) ?_,h _ [] (List.append_nil _).symm⟩
        rw [hpre,List.append_assoc]
      · rintro ⟨hpre,hlast⟩ pre post hsplit
        rcases List.eq_nil_or_concat post with rfl | ⟨rest,x,rfl⟩
        · rw [List.append_nil] at hsplit
          rw [←hsplit]
          exact hlast
        · rw [List.concat_eq_append,←List.append_assoc] at hsplit
          exact hpre pre rest (List.append_inj_left' hsplit rfl)
    rw [hsplits,along_append,ih,along_cons,and_congr_right_iff]
    intro halong
    have hfree := ih.mpr halong events [] (List.append_nil _).symm
    rw [run_append,run_cons,run_nil,stuck_step (sound_run hraw events) hraw
      (fun report hlive => ⟨events,[],(List.append_nil _).symm,hlive⟩) hfree e]
    exact (and_iff_left trivial).symm

end Runs

section Polls

variable {raw d : Text} {s : System} {id : ℕ} {f : Fetch} {answer : DeepResponse}

/-- A request is found again behind a change of all of them. -/
theorem find_map_id (fetches : List Fetch) {change : Fetch → Fetch}
    (hid : ∀ f, (change f).id=f.id) (id : ℕ) :
    (fetches.map change).find? (fun f => f.id=id)=
      (fetches.find? fun f => f.id=id).map change := by
  rw [List.find?_map]
  congr 2
  funext f
  rw [Function.comp_apply,hid]

/-- Behind a step of the API, with what that answers. -/
theorem fetch_serve (s : System) (e : DeepScans.Event) (id : ℕ) :
    (s.serve e).fetch id=(s.fetch id).map (answered (respond s.api e)) :=
  find_map_id _ (fun _ => answered_keeps.1) id

/-- Behind a change of one request. -/
theorem fetch_update (s : System) (other : ℕ) {change : Fetch → Fetch}
    (hid : ∀ f, (change f).id=f.id) (id : ℕ) :
    (s.update other change).fetch id=
      (s.fetch id).map fun f => if f.id=other then change f else f := by
  refine find_map_id _ (fun f => ?_) id
  split
  · exact hid f
  · rfl

/-- Behind the end of another request. -/
theorem fetch_drop (s : System) {other : ℕ} (hne : other≠id) (q : Page) :
    ({s.drop other with page := q} : System).fetch id=s.fetch id := by
  rw [System.fetch,System.drop,List.find?_filter,System.fetch]
  congr 1
  funext g
  by_cases hg : g.id=id
  · simp [hg,Ne.symm hne]
  · simp [hg]

/-- Behind a new request. -/
theorem fetch_send (hfetch : s.fetch id=some f) (kind : FetchKind) (q : Page) :
    ({s.send kind with page := q} : System).fetch id=some f := by
  rw [System.fetch] at hfetch
  rw [System.fetch,System.send,List.find?_append,hfetch,Option.some_or]

/-- A request that has its answer keeps it until it is delivered or fails. -/
theorem fetch_step (raw : Text) (hfetch : s.fetch id=some f) (hanswer : f.answer=some answer)
    {e : Event} (hdeliver : e≠.deliver id) (hfail : e≠.fail id) :
    ∃ g, (step raw s e).fetch id=some g ∧ g.answer=some answer ∧ g.kind=f.kind := by
  have hsame {t : System} (ht : t.fetch id=some f) :
      ∃ g, t.fetch id=some g ∧ g.answer=some answer ∧ g.kind=f.kind := ⟨f,ht,hanswer,rfl⟩
  have hserve (t : System) (command : DeepScans.Event) {g : Fetch} (hg : t.fetch id=some g)
      (hanswer : g.answer=some answer) (hkind : g.kind=f.kind) :
      ∃ g', (t.serve command).fetch id=some g' ∧ g'.answer=some answer ∧ g'.kind=f.kind := by
    refine ⟨answered (respond t.api command) g,?_,answered_of_answer hanswer,
      answered_keeps.2.trans hkind⟩
    rw [fetch_serve,hg,Option.map_some]
  have hupdate (other : ℕ) (change : Fetch → Fetch) (hid : ∀ f, (change f).id=f.id)
      (hkind : ∀ f, (change f).kind=f.kind)
      (hkept : ∀ f, f.answer=some answer → (change f).answer=some answer) :
      ∃ g, (s.update other change).fetch id=some g ∧ g.answer=some answer ∧ g.kind=f.kind := by
    refine ⟨if f.id=other then change f else f,?_,?_,?_⟩
    · rw [fetch_update s other hid,hfetch,Option.map_some]
    · split
      · exact hkept f hanswer
      · exact hanswer
    · split
      · exact hkind f
      · rfl
  cases e with
  | api e => exact hserve s _ hfetch hanswer rfl
  | reach other =>
    rw [step]
    obtain hs | ⟨_,-,hs⟩ := reachStep_cases raw s other <;> rw [hs]
    · exact hsame hfetch
    · obtain ⟨g,hg,hkept,hkind⟩ := hupdate other (fun g => {g with reached := true})
        (fun _ => rfl) (fun _ => rfl) (fun _ h => h)
      exact hserve _ _ hg hkept hkind
  | refuse other =>
    rw [step]
    obtain hs | ⟨_,-,-,hs⟩ := refuseStep_cases s other <;> rw [hs]
    · exact hsame hfetch
    · exact hupdate other _ (fun _ => rfl) (fun _ => rfl) fun _ h =>
        Option.or_eq_some_iff.mpr (.inl h)
  | deliver other =>
    have hne : other≠id := fun h => hdeliver (h ▸ rfl)
    rw [step]
    obtain ⟨hs,-⟩ | ⟨_,_,-,-,hs⟩ := deliverStep_cases s other <;> rw [hs]
    · exact hsame hfetch
    · exact hsame ((fetch_drop s hne _).trans hfetch)
  | fail other =>
    have hne : other≠id := fun h => hfail (h ▸ rfl)
    rw [step]
    obtain hs | ⟨_,-,hs⟩ := failStep_cases s other <;> rw [hs]
    · exact hsame hfetch
    · exact hsame ((fetch_drop s hne _).trans hfetch)
  | click =>
    rw [step]
    obtain hs | ⟨-,hs⟩ := clickStep_cases s <;> rw [hs]
    · exact hsame hfetch
    · exact hsame (fetch_send hfetch _ _)
  | timer =>
    rw [step]
    obtain hs | ⟨-,hs⟩ := timerStep_cases s <;> rw [hs]
    · exact hsame hfetch
    · exact hsame (fetch_send hfetch _ _)
  | render => exact hsame hfetch
  | effects => exact hsame hfetch

/-- It keeps it along a run. -/
theorem fetch_run (hfetch : s.fetch id=some f) (hanswer : f.answer=some answer)
    {events : List Event} (hdeliver : .deliver id∉events) (hfail : .fail id∉events) :
    ∃ g, (run (step raw) s events).fetch id=some g ∧ g.answer=some answer ∧ g.kind=f.kind := by
  induction events generalizing s f with
  | nil => exact ⟨f,hfetch,hanswer,rfl⟩
  | cons e events ih =>
    rw [List.mem_cons,not_or] at hdeliver hfail
    obtain ⟨g,hg,hkept,hkind⟩ := fetch_step raw hfetch hanswer (Ne.symm hdeliver.1)
      (Ne.symm hfail.1)
    rw [run_cons,←hkind]
    exact ih hg hkept hdeliver.2 hfail.2

/-- A poll that comes to the API while a result is stored is answered with it. -/
theorem fetch_reach (hraw : lookupDomain raw=some d) (hfetch : s.fetch id=some f)
    (hkind : f.kind=.poll) (hreached : f.reached=false) (hanswer : f.answer=none)
    {report : DeepReport} (hlive : liveResult s.api d=some report) :
    ∃ g, (step raw s (.reach id)).fetch id=some g ∧ g.answer=some (.done d report) ∧
      g.kind=.poll := by
  obtain ⟨-,rfl⟩ := fetch_eq_some hfetch
  have hgiven : respond s.api (firstCommand raw f)=some (clientOf f.id,.done d report) := by
    have hfirst : firstAnswer s.api raw=some (.done d report) :=
      (firstAnswer_eq_some hraw).mpr ⟨report,hlive,rfl⟩
    rw [firstCommand,hkind]
    exact congrArg (Option.map (clientOf f.id,·)) hfirst
  refine ⟨answered (some (clientOf f.id,.done d report)) {f with reached := true},?_,?_,?_⟩
  · rw [step,reachStep,hfetch]
    dsimp only
    have hmarked : (s.update f.id fun g => {g with reached := true}).fetch f.id=
        some {f with reached := true} := by
      refine (fetch_update s f.id ?_ f.id).trans ?_
      · exact fun _ => rfl
      · rw [hfetch,Option.map_some,if_pos rfl]
    rw [hreached,if_neg Bool.false_ne_true,fetch_serve,hmarked,Option.map_some]
    exact congrArg some (congrArg (answered · _) hgiven)
  · rw [answered,if_pos rfl,hanswer,Option.none_or]
  · exact answered_keeps.2.trans hkind

/-- The report that a poll was answered with is rendered next, and the effects
behind that end the polling. -/
theorem view_deliver {Seen : DeepReport → Prop} (hsound : Sound d Seen s)
    (hfetch : s.fetch id=some f) {report : DeepReport} (hanswer : f.answer=some (.done d report))
    (hkind : f.kind=.poll) (hasks : s.page.poller=some (.asking id)) :
    ∀ u, u=step raw s (.deliver id) → u.page.running=false ∧
      u.page.settled.view=.report report ∧ u.page.settled.poller=none := by
  rintro u rfl
  obtain ⟨hmem,rfl⟩ := fetch_eq_some hfetch
  have hpage : (step raw s (.deliver f.id)).page=s.page.onAnswer f.kind f.id (.done d report) := by
    rw [step,deliverStep,hfetch]
    dsimp only
    rw [hanswer]
  have hfits := hsound.page.onAnswer hsound.nodup hmem (hsound.answers f hmem _ hanswer)
  rw [←hpage] at hfits
  have hlook : (step raw s (.deliver f.id)).page.toLook=⟨.done d report,false⟩ := by
    rw [hpage,hkind,Page.onAnswer,Page.onPoll,if_pos hasks]
    simp [isDone]
  obtain ⟨hrendered,heffect⟩ := settled_spec (step raw s (.deliver f.id)).page
  rw [hlook] at hrendered heffect
  refine ⟨congrArg Look.running hlook,?_,hfits.render.flush.tracks.mpr heffect⟩
  rw [Page.view,hrendered]
  rfl

/-- The panel of a domain and the API together, whatever else goes on: it is
never stuck exactly when no answer is late; while it runs and is not stuck it
has, once it is rendered and its effects have run, a poll before it or under
way; a report that it shows was stored for the domain at some moment before; and
a poll that comes to the API while a report is stored ends, when its answer is
delivered and the poll is not cancelled, with the next render showing that
report and its effects polling no more. -/
theorem panel_shows_reports (hraw : lookupDomain raw=some d) (events : List Event) :
    ((∀ pre post, events=pre++post → ¬Stuck (run (step raw) (start raw) pre).page) ↔
      Along (step raw) (fun s e => ¬Late s e) (start raw) events) ∧
    (∀ t, t=run (step raw) (start raw) events →
      (t.page.running=true → ¬Stuck t.page → Polls t.page.settled t.fetches) ∧
      ∀ report, t.page.view=.report report → WasStored raw d events report) ∧
    ∀ pre mid id, events=pre++.reach id::(mid++[.deliver id]) →
      ∀ s t u, s=run (step raw) (start raw) pre → t=run (step raw) s (.reach id::mid) →
        u=step raw t (.deliver id) →
        ∀ f report, s.fetch id=some f → f.kind=.poll → f.reached=false → f.answer=none →
          liveResult s.api d=some report → .deliver id∉mid → .fail id∉mid →
            t.page.poller=some (.asking id) → u.page.running=false ∧
              u.page.settled.view=.report report ∧ u.page.settled.poller=none := by
  refine ⟨never_stuck_iff hraw events,?_,?_⟩
  · rintro t rfl
    have hsound := sound_run hraw events
    refine ⟨hsound.page.polls,fun report hview => ?_⟩
    rw [Page.view,Look.view] at hview
    split at hview
    · cases hview
    · split at hview
      · cases hview
      · split at hview
        · rename_i domain stored hshown
          rw [←View.report.inj hview]
          exact (hsound.page.rendered domain stored hshown).2
        · cases hview
  · rintro pre mid id - s t u rfl rfl hu f report hfetch hkind hreached hanswer hlive hdeliver
      hfail hasks
    have hsound := sound_run hraw (pre++.reach id::mid)
    rw [run_append] at hsound
    obtain ⟨g,hg,hreply,hpoll⟩ := fetch_reach hraw hfetch hkind hreached hanswer hlive
    obtain ⟨g',hg',hreply',hpoll'⟩ := fetch_run hg hreply hdeliver hfail
    exact view_deliver hsound hg' hreply' (hpoll'.trans hpoll) hasks u hu

end Polls

section Examples

/-- A start whose answer is overtaken by that of a poll. -/
def overtaken : List Event :=
  [.click,.effects,.reach 1,.api (.postClaim 0),.timer,.api (.store 0 (.report "{}".toList)),
    .reach 2,.deliver 2,.deliver 1]

/-- The request of the first effect is answered as pending, and the answer comes
between the one that ends the polling and its render. -/
def batched : List Event :=
  [.click,.effects,.reach 1,.api (.postClaim 0),.deliver 1,.reach 0,.api (.getLock 0),.timer,
    .api (.store 0 (.report "{}".toList)),.reach 2,.deliver 2,.deliver 0]

/-- The answer to the start comes in time. -/
def inTime : List Event :=
  [.click,.effects,.reach 1,.api (.postClaim 0),.deliver 1,.timer,
    .api (.store 0 (.report "{}".toList)),.reach 2,.deliver 2,.render]

/-- The panel of the first two runs is stuck, and that of the last one shows the
report that was stored. -/
theorem panel_shows_reports_payTop :
    (∀ events∈[overtaken,batched],
      ¬Along (step payTop) (fun s e => ¬Late s e) (start payTop) events) ∧
      WasStored payTop payTop inTime (.scanned "{}".toList) := by
  have hraw : lookupDomain payTop=some payTop := by decide +kernel
  have hended : ∀ events∈[overtaken,batched],
      (run (step payTop) (start payTop) events).page.settled.view=.loading ∧
        ∀ q∈(run (step payTop) (start payTop) events).page.settled.poller, q=.finished := by
    decide +kernel
  refine ⟨fun events hevents halong => ?_,?_⟩
  · exact (panel_shows_reports hraw events).1.mpr halong events [] (List.append_nil _).symm
      (hended events hevents)
  · refine ((panel_shows_reports hraw inTime).2.1 _ rfl).2 _ ?_
    decide +kernel

end Examples

end ScamLens.DeepPages
