import ScamLens.EventRuns
import ScamLens.LengthFrames
import ScamLens.UpstreamSockets

/-!
# The TCP listener

One task for each connection reads a length and a message, waits for the
resolver and writes its answer, in a loop. Bytes arrive in pieces of any size,
also while the resolver works. Over every run the requests are the messages of
the stream, in order and none twice, and the answers are framed behind one
another; the connection is closed for the end of the stream, for an exception,
or for an answer that no length of two bytes can announce.
-/

namespace ScamLens.TcpServers

open EventRuns LengthFrames Resolver Upstream UpstreamSockets VerdictCache

/-- A request that the resolver has dealt with. -/
structure Served where
  /-- The message. -/
  request : Wire
  /-- What `resolve` does with it. -/
  resolved : Except Failure (ResolveResult×List Task)
  /-- Whether the answer could be drained, if there is one. -/
  drained : Bool

/-- The answer that is written for a request, if there is one. -/
def Served.written (x : Served) : Option Wire :=
  match x.resolved with
  | .error _ => none
  | .ok (result,_) => result.wire.filter fun wire => wire≠[] ∧ wire.length<frameLimit

/-- The request ends the loop with an exception: of the resolver, of the length
of its answer, or of the socket. -/
def Served.raises (x : Served) : Bool :=
  match x.resolved with
  | .error _ => true
  | .ok (result,_) =>
    match result.wire with
    | none => true
    | some wire => wire≠[] && (frameLimit ≤ wire.length || !x.drained)

/-- Where the task of a connection stands. -/
inductive Phase where
  /-- It waits for the two bytes of a length. -/
  | length
  /-- It waits for a message of the given length. -/
  | body (n : ℕ)
  /-- It waits for the resolver. -/
  | resolving (request : Wire)
  /-- The writer is closed; the bytes have not become a request. -/
  | closed (unread : Wire)

/-- A connection, with the history that its results are about. -/
structure Connection where
  /-- Bytes that arrived before the writer was closed. -/
  received : Wire
  /-- Bytes in the buffer of the reader. -/
  buffer : Wire
  /-- Whether the client has closed its side. -/
  eof : Bool
  /-- Where the task stands. -/
  phase : Phase
  /-- Requests dealt with, in order. -/
  served : List Served
  /-- Bytes that were written. -/
  sent : Wire

/-- A connection that has just been opened. -/
def Connection.fresh : Connection := ⟨[],[],false,.length,[],[]⟩

/-- What moves a connection. -/
inductive Event where
  /-- Bytes arrive. -/
  | segment (bytes : Wire)
  /-- The client closes its side. -/
  | close
  /-- The task goes on with what is in the buffer, if it can. -/
  | wake
  /-- The resolver is done with the request. -/
  | resolved (outcome : Except Failure (ResolveResult×List Task)) (drained : Bool)

/-- `handle` comes to its end. -/
def Connection.finish (s : Connection) (unread : Wire) : Connection :=
  {s with phase := .closed unread, buffer := []}

/-- `readexactly` that cannot be satisfied: an exception at the end of the
stream, and waiting otherwise. -/
def Connection.starve (s : Connection) (unread : Wire) : Connection :=
  if s.eof then s.finish unread else s

/-- The task goes on. -/
def Connection.wake (s : Connection) : Connection :=
  match s.phase with
  | .length =>
    match s.buffer with
    | b1::b0::buffer => {s with phase := .body (readLength b1 b0), buffer := buffer}
    | _ => s.starve s.buffer
  | .body n =>
    if n ≤ s.buffer.length then
      {s with phase := .resolving (s.buffer.take n), buffer := s.buffer.drop n}
    else s.starve (lengthBytes n++s.buffer)
  | .resolving _ => s
  | .closed _ => s

/-- The rest of the loop behind `resolve`. -/
def Connection.answer (s : Connection) (x : Served) : Connection :=
  let s := {s with
    served := s.served++[x]
    sent := s.sent++(x.written.map frame).getD []}
  if x.raises then s.finish s.buffer else {s with phase := .length}

/-- One move of a connection. -/
def connectionStep (s : Connection) : Event → Connection
  | .segment bytes =>
    match s.phase with
    | .closed _ => s
    | _ =>
      if s.eof then s else {s with received := s.received++bytes, buffer := s.buffer++bytes}
  | .close => {s with eof := true}
  | .wake => s.wake
  | .resolved outcome drained =>
    match s.phase with
    | .resolving request => s.answer ⟨request,outcome,drained⟩
    | _ => s

/-- Bytes that arrived and are no request yet. -/
def Connection.pending (s : Connection) : Wire :=
  match s.phase with
  | .length => s.buffer
  | .body n => lengthBytes n++s.buffer
  | .resolving request => frame request++s.buffer
  | .closed unread => unread

/-- The length that the task waits for is one of two bytes. -/
def Phase.Short : Phase → Prop
  | .body n => n<frameLimit
  | .resolving request => request.length<frameLimit
  | _ => True

/-- The task has nothing to do before something arrives. -/
def Connection.Quiet (s : Connection) : Prop :=
  match s.phase with
  | .length => s.eof=false ∧ s.buffer.length<2
  | .body n => s.eof=false ∧ s.buffer.length<n
  | .resolving _ => False
  | .closed _ => True

/-- What holds of every connection. -/
structure Sound (s : Connection) : Prop where
  /-- The requests and the rest make up the bytes that arrived. -/
  received : s.received=(s.served.map Served.request).flatMap frame++s.pending
  /-- The answers are written one behind the other. -/
  sent : s.sent=(s.served.filterMap Served.written).flatMap frame
  /-- Every request had a length of two bytes. -/
  short : ∀ x∈s.served, x.request.length<frameLimit
  /-- So has the one that is being read. -/
  phase : s.phase.Short
  /-- The task goes on only while nothing raises. -/
  running : (∀ unread, s.phase≠.closed unread) → ∀ x∈s.served, x.raises=false
  /-- It has ended for the last request, or at the end of the stream. -/
  closed : ∀ unread, s.phase=.closed unread →
    (∃ before x, s.served=before++[x] ∧ x.raises=true ∧ ∀ y∈before, y.raises=false) ∨
      (s.eof=true ∧ takeFrame unread=none ∧ ∀ x∈s.served, x.raises=false)

/-- Fewer bytes than a length are no message. -/
theorem takeFrame_short {bytes : Wire} (h : bytes.length<2) : takeFrame bytes=none := by
  match bytes with
  | [] => rfl
  | [_] => rfl
  | _::_::_ =>
    simp only [List.length_cons] at h
    omega

/-- A length with fewer bytes behind it is no message. -/
theorem takeFrame_lengthBytes {n : ℕ} (hn : n<frameLimit) {buffer : Wire}
    (h : buffer.length<n) : takeFrame (lengthBytes n++buffer)=none := by
  change takeFrame (UInt8.ofNat (n/256)::UInt8.ofNat (n%256)::buffer)=none
  rw [takeFrame,readLength_lengthBytes hn,if_neg (Nat.not_le.mpr h)]

variable {s : Connection}

/-- Bytes that are no message end the loop at the end of the stream. -/
theorem Sound.starve (h : Sound s) (hopen : ∀ unread, s.phase≠.closed unread)
    (hnone : takeFrame s.pending=none) : Sound (s.starve s.pending) := by
  rw [Connection.starve]
  split
  · rename_i heof
    refine ⟨h.received,h.sent,h.short,trivial,fun hno => absurd rfl (hno s.pending),?_⟩
    rintro unread hclosed
    obtain rfl := Phase.closed.inj hclosed
    exact Or.inr ⟨heof,hnone,h.running hopen⟩
  · exact h

/-- The task goes on and keeps what holds. -/
theorem Sound.wake (h : Sound s) : Sound s.wake := by
  obtain ⟨received,buffer,eof,phase,served,sent⟩ := s
  have hreceived := h.received
  cases phase with
  | length =>
    match buffer with
    | [] => exact h.starve (by simp) rfl
    | [_] => exact h.starve (by simp) rfl
    | b1::b0::buffer =>
      change Sound ⟨received,buffer,eof,.body (readLength b1 b0),served,sent⟩
      refine ⟨?_,h.sent,h.short,readLength_lt b1 b0,fun _ => h.running (by simp),by simp⟩
      change received=_++(lengthBytes (readLength b1 b0)++buffer)
      rw [lengthBytes_readLength]
      exact hreceived
  | body n =>
    rw [Connection.wake]
    dsimp only
    split
    · rename_i hlength
      have htake : (buffer.take n).length=n := List.length_take_of_le hlength
      have hshort : (buffer.take n).length<frameLimit := htake.symm ▸ h.phase
      refine ⟨?_,h.sent,h.short,hshort,fun _ => h.running (by simp),by simp⟩
      change received=_++(frame (buffer.take n)++buffer.drop n)
      rw [frame,htake,List.append_assoc,List.take_append_drop]
      exact hreceived
    · rename_i hlength
      exact h.starve (by simp) (takeFrame_lengthBytes h.phase (Nat.lt_of_not_le hlength))
  | resolving request => exact h
  | closed unread => exact h

/-- An answer keeps what holds. -/
theorem Sound.answer (h : Sound s) {x : Served} (hphase : s.phase=.resolving x.request) :
    Sound (s.answer x) := by
  obtain ⟨received,buffer,eof,phase,served,sent⟩ := s
  obtain rfl : phase=.resolving x.request := hphase
  have hopen := h.running (by simp)
  have hreceived : received=((served++[x]).map Served.request).flatMap frame++buffer := by
    rw [List.map_append,List.flatMap_append,List.append_assoc]
    have htail : ([x].map Served.request).flatMap frame=frame x.request := by simp
    rw [htail]
    exact h.received
  have hsent : sent++(x.written.map frame).getD []=
      ((served++[x]).filterMap Served.written).flatMap frame := by
    rw [List.filterMap_append,List.flatMap_append,←h.sent]
    cases hwritten : x.written <;> simp [hwritten]
  have hshort : ∀ y∈served++[x], y.request.length<frameLimit :=
    List.forall_mem_append.mpr ⟨h.short,List.forall_mem_singleton.mpr h.phase⟩
  rw [Connection.answer]
  dsimp only
  split
  · rename_i hraises
    refine ⟨hreceived,hsent,hshort,trivial,fun hno => absurd rfl (hno buffer),?_⟩
    exact fun unread _ => Or.inl ⟨served,x,rfl,hraises,hopen⟩
  · rename_i hraises
    refine ⟨hreceived,hsent,hshort,trivial,fun _ => ?_,by simp⟩
    exact List.forall_mem_append.mpr
      ⟨hopen,List.forall_mem_singleton.mpr (Bool.eq_false_iff.mpr hraises)⟩

/-- Every move keeps what holds. -/
theorem Sound.step (h : Sound s) (e : Event) : Sound (connectionStep s e) := by
  cases e with
  | segment bytes =>
    obtain ⟨received,buffer,eof,phase,served,sent⟩ := s
    have hreceived := h.received
    cases phase with
    | closed unread => exact h
    | length =>
      cases eof with
      | true => exact h
      | false =>
        refine ⟨?_,h.sent,h.short,h.phase,h.running,by simp [connectionStep]⟩
        simp only [connectionStep,Connection.pending] at hreceived ⊢
        simp [hreceived]
    | body n =>
      cases eof with
      | true => exact h
      | false =>
        refine ⟨?_,h.sent,h.short,h.phase,h.running,by simp [connectionStep]⟩
        simp only [connectionStep,Connection.pending] at hreceived ⊢
        simp [hreceived]
    | resolving request =>
      cases eof with
      | true => exact h
      | false =>
        refine ⟨?_,h.sent,h.short,h.phase,h.running,by simp [connectionStep]⟩
        simp only [connectionStep,Connection.pending] at hreceived ⊢
        simp [hreceived]
  | close =>
    refine ⟨h.received,h.sent,h.short,h.phase,h.running,fun unread hclosed => ?_⟩
    rcases h.closed unread hclosed with hlast | ⟨-,hrest⟩
    · exact Or.inl hlast
    · exact Or.inr ⟨rfl,hrest⟩
  | wake => exact h.wake
  | resolved outcome drained =>
    rw [connectionStep]
    split
    · rename_i request hphase
      exact h.answer hphase
    · exact h

/-- A fresh connection is sound. -/
theorem sound_fresh : Sound Connection.fresh :=
  ⟨rfl,rfl,List.forall_mem_nil _,trivial,fun _ => List.forall_mem_nil _,by simp [Connection.fresh]⟩

/-- So is every connection. -/
theorem sound_run (events : List Event) : Sound (run connectionStep Connection.fresh events) :=
  run_invariant Sound (fun _ e h (_ : True) => h.step e) sound_fresh fun _ _ => trivial

/-- An answer that is written has a length of two bytes. -/
theorem length_written {x : Served} {answer : Wire} (h : x.written=some answer) :
    answer.length<frameLimit := by
  rw [Served.written] at h
  split at h
  · cases h
  · exact (of_decide_eq_true (Option.filter_eq_some_iff.mp h).2).2

/-- The requests are the first messages of the stream; where no more than a
part of a message is left, they are all of them. -/
theorem Sound.requests (h : Sound s) :
    (frames s.received).1=s.served.map Served.request++(frames s.pending).1 := by
  have hshort : ∀ request∈s.served.map Served.request, request.length<frameLimit := by
    intro request hrequest
    obtain ⟨x,hx,rfl⟩ := List.mem_map.mp hrequest
    exact h.short x hx
  rw [h.received,frames_flatMap hshort]

/-- A connection without anything to do has dealt with every whole message, or
with a request that raises. -/
theorem Sound.complete (h : Sound s) (hquiet : s.Quiet) :
    (frames s.received).1=s.served.map Served.request ∨
      ∃ before x, s.served=before++[x] ∧ x.raises=true := by
  have hall (hnone : takeFrame s.pending=none) :
      (frames s.received).1=s.served.map Served.request := by
    rw [h.requests,frames_of_takeFrame hnone,List.append_nil]
  obtain ⟨received,buffer,eof,phase,served,sent⟩ := s
  cases phase with
  | length => exact Or.inl (hall (takeFrame_short hquiet.2))
  | body n => exact Or.inl (hall (takeFrame_lengthBytes h.phase hquiet.2))
  | resolving request => exact hquiet.elim
  | closed unread =>
    rcases h.closed unread rfl with ⟨before,x,hserved,hraises,-⟩ | ⟨-,hnone,-⟩
    · exact Or.inr ⟨before,x,hserved,hraises⟩
    · exact Or.inl (hall hnone)

/-- Nothing follows a request that raises. -/
theorem Sound.last_raises (h : Sound s) {before after : List Served} {x : Served}
    (hserved : s.served=before++x::after) (hraises : x.raises=true) : after=[] := by
  have hnever (list : List Served) (hlist : ∀ y∈list, y.raises=false) : x∉list := by
    intro hx
    rw [hlist x hx] at hraises
    cases hraises
  have hmem : x∈s.served := by simp [hserved]
  by_cases hopen : ∀ unread, s.phase≠.closed unread
  · exact absurd hmem (hnever _ (h.running hopen))
  obtain ⟨unread,hclosed⟩ := not_forall_not.mp hopen
  rcases h.closed unread hclosed with ⟨front,last,hlast,-,hfront⟩ | ⟨-,-,hnone⟩
  · rcases List.eq_nil_or_concat after with hnil | ⟨middle,y,rfl⟩
    · exact hnil
    · have heq : (before++x::middle)++[y]=front++[last] := by
        rw [←hlast,hserved]
        simp
      have hsame : before++x::middle=front := (List.append_inj' heq rfl).1
      exact absurd (by simp [←hsame]) (hnever _ hfront)
  · exact absurd hmem (hnever _ hnone)

/-- After the end of the stream a connection without anything to do is closed. -/
theorem Connection.Quiet.closed (hquiet : s.Quiet) (heof : s.eof=true) :
    ∃ unread, s.phase=.closed unread := by
  rw [Connection.Quiet] at hquiet
  cases hphase : s.phase with
  | length =>
    rw [hphase] at hquiet
    exact absurd (hquiet.1.symm.trans heof) Bool.false_ne_true
  | body n =>
    rw [hphase] at hquiet
    exact absurd (hquiet.1.symm.trans heof) Bool.false_ne_true
  | resolving request =>
    rw [hphase] at hquiet
    exact hquiet.elim
  | closed unread => exact ⟨unread,rfl⟩

/-- A client that reads one answer as the upstream client does gets the first. -/
theorem tcpQuery_frame {answer : Wire} (h : answer.length<frameLimit) (rest : Wire)
    (closed : Bool) : tcpQuery (.bytes (frame answer++rest) closed)=.data answer := by
  have hbytes : frame answer++rest=UInt8.ofNat (answer.length/256)::
      UInt8.ofNat (answer.length%256)::(answer++rest) := rfl
  have hlength : (UInt8.ofNat (answer.length/256)).toNat*256+
      (UInt8.ofNat (answer.length%256)).toNat=answer.length := readLength_lengthBytes h
  rw [hbytes,tcpQuery]
  simp only [hlength,List.length_append]
  rw [if_pos (Nat.le_add_right _ _),List.take_left']
  rfl

/-- In every run of a connection, however the bytes arrive, the requests are the
first messages of the stream, in order and none twice; nothing follows a request
that raises. Once there is nothing to do they are all of the whole messages, or
the last one raises, and after the end of the stream the connection is closed.
What is sent is cut into the answers that are not empty, in order, and the
upstream client reads the first of them. -/
theorem tcp_serves_in_order (events : List Event) :
    let s := run connectionStep Connection.fresh events
    s.served.map Served.request<+:(frames s.received).1 ∧
    (∀ before x after, s.served=before++x::after → x.raises=true → after=[]) ∧
    (s.Quiet → ((frames s.received).1=s.served.map Served.request ∨
        ∃ before x, s.served=before++[x] ∧ x.raises=true) ∧
      (s.eof=true → ∃ unread, s.phase=.closed unread)) ∧
    frames s.sent=(s.served.filterMap Served.written,[]) ∧
    ∀ answer answers closed, s.served.filterMap Served.written=answer::answers →
      tcpQuery (.bytes s.sent closed)=.data answer := by
  intro s
  have h : Sound s := sound_run events
  have hwritten : ∀ answer∈s.served.filterMap Served.written, answer.length<frameLimit := by
    intro answer hanswer
    obtain ⟨x,-,hx⟩ := List.mem_filterMap.mp hanswer
    exact length_written hx
  refine ⟨⟨_,h.requests.symm⟩,fun before x after => h.last_raises,
    fun hquiet => ⟨h.complete hquiet,fun heof => hquiet.closed heof⟩,?_,
    fun answer answers closed hlist => ?_⟩
  · rw [h.sent]
    exact frames_written hwritten
  · have hshort : answer.length<frameLimit := hwritten answer (by simp [hlist])
    rw [h.sent,hlist,List.flatMap_cons]
    exact tcpQuery_frame hshort _ closed

end ScamLens.TcpServers
