import ScamLens.PythonText

/-!
# Event streams as a browser reads them

A stream is a text of lines; a line with a colon is a field, one that starts
with a colon is a comment, and an empty line ends a message. The data of a
message are its data fields, one for each line. What no empty line ends is
thrown away. Whoever writes one data field without a line break for each
message, and comments in between, has exactly these messages read.
-/

namespace ScamLens.EventStreams

open PythonText

/-- The complete lines of a text, the first one having begun already. A line
ends with a line feed, a carriage return or both. -/
def linesFrom (line : Text) : Text → List Text
  | [] => []
  | '\r':: '\n'::s => line::linesFrom [] s
  | '\r'::s => line::linesFrom [] s
  | '\n'::s => line::linesFrom [] s
  | c::s => linesFrom (line++[c]) s

/-- The lines of a stream behind its byte order mark. -/
def streamLines (s : Text) : List Text :=
  linesFrom [] (if s.head? = some '\uFEFF' then s.tail else s)

/-- The name and the value of a field, without the blank in front of it. -/
def splitField (line : Text) : Text×Text :=
  let value := (line.dropWhile (· != ':')).drop 1
  (line.takeWhile (· != ':'),if value.head? = some ' ' then value.tail else value)

/-- What a browser knows of a stream. -/
structure StreamState where
  /-- The data of the message that has begun. -/
  data : Text
  /-- Its type, if it has one of its own. -/
  type : Text
  /-- The messages that the listener has got, the first one first. -/
  messages : List Text

/-- The end of a message: without data there is none, and one with a type of
its own goes to another listener. -/
def StreamState.dispatch (s : StreamState) : StreamState :=
  if s.data=[] then {s with type := []}
  else if s.type=[] || s.type="message".toList then ⟨[],[],s.messages++[s.data.dropLast]⟩
  else ⟨[],[],s.messages⟩

/-- One line of a stream. -/
def readLine (s : StreamState) (line : Text) : StreamState :=
  if line=[] then s.dispatch
  else if line.head? = some ':' then s
  else
    let (name,value) := splitField line
    if name="data".toList then {s with data := s.data++(value++['\n'])}
    else if name="event".toList then {s with type := value}
    else s

/-- The messages that the listener of a stream gets. -/
def streamMessages (s : Text) : List Text :=
  ((streamLines s).foldl readLine ⟨[],[],[]⟩).messages

/-- The text is within one line. -/
def OneLine (s : Text) : Prop := ∀ c∈s, c≠ '\r' ∧ c≠ '\n'

instance (s : Text) : Decidable (OneLine s) := inferInstanceAs (Decidable (∀ c∈s, _))

/-- A line ends at the first line feed. -/
theorem linesFrom_append {s : Text} (h : OneLine s) (line rest : Text) :
    linesFrom line (s++ '\n'::rest)=(line++s)::linesFrom [] rest := by
  induction s generalizing line with
  | nil => rw [List.nil_append,linesFrom,List.append_nil]
  | cons c s ih =>
    obtain ⟨hc,hs⟩ := List.forall_mem_cons.mp h
    rw [List.cons_append,linesFrom,ih hs,List.append_assoc,List.singleton_append]
    · rintro t rfl -
      exact hc.1 rfl
    · exact hc.1
    · exact hc.2

/-- What the writer of a stream puts out. -/
inductive Chunk where
  /-- A message of one data field. -/
  | data (s : Text)
  | comment (s : Text)

/-- The line of a chunk. -/
def Chunk.line : Chunk → Text
  | .data s => "data: ".toList++s
  | .comment s => ':'::s

/-- The text of a chunk: its line and an empty line. -/
def Chunk.text (chunk : Chunk) : Text := chunk.line++['\n','\n']

/-- The data of a chunk. -/
def Chunk.message : Chunk → Option Text
  | .data s => some s
  | .comment _ => none

/-- A chunk is two lines, the second one empty. -/
theorem linesFrom_chunk {chunk : Chunk} (h : OneLine chunk.line) (rest : Text) :
    linesFrom [] (chunk.text++rest)=chunk.line::[]::linesFrom [] rest := by
  have htext : chunk.text++rest=chunk.line++ '\n'::([]++ '\n'::rest) := by simp [Chunk.text]
  rw [htext,linesFrom_append h,linesFrom_append (List.forall_mem_nil _)]
  rfl

/-- A written chunk is read as its message, if it is one. -/
theorem readLine_chunk (chunk : Chunk) (messages : List Text) :
    readLine (readLine ⟨[],[],messages⟩ chunk.line) []=
      ⟨[],[],messages++chunk.message.toList⟩ := by
  cases chunk with
  | data s =>
    have hsplit : splitField ("data: ".toList++s)=("data".toList,s) := rfl
    have hread : readLine ⟨[],[],messages⟩ ("data: ".toList++s)=⟨s++['\n'],[],messages⟩ := by
      rw [readLine,if_neg (by simp),if_neg (by simp),hsplit]
      rfl
    rw [Chunk.line,hread,readLine,if_pos rfl,StreamState.dispatch,if_neg (by simp)]
    simp [Chunk.message]
  | comment s =>
    have hread : readLine ⟨[],[],messages⟩ (':'::s)=⟨[],[],messages⟩ := by
      rw [readLine,if_neg (by simp),List.head?_cons,if_pos rfl]
    rw [Chunk.line,hread,readLine,if_pos rfl,StreamState.dispatch,if_pos rfl]
    simp [Chunk.message]

/-- Reading written chunks adds their messages to those before. -/
theorem foldl_chunks {chunks : List Chunk} (h : ∀ chunk∈chunks, OneLine chunk.line)
    (messages : List Text) :
    (linesFrom [] (chunks.flatMap Chunk.text)).foldl readLine ⟨[],[],messages⟩=
      ⟨[],[],messages++chunks.filterMap Chunk.message⟩ := by
  induction chunks generalizing messages with
  | nil => simp [linesFrom]
  | cons chunk chunks ih =>
    obtain ⟨hchunk,hchunks⟩ := List.forall_mem_cons.mp h
    rw [List.flatMap_cons,linesFrom_chunk hchunk,List.foldl_cons,List.foldl_cons,readLine_chunk,
      ih hchunks]
    cases chunk <;> simp [Chunk.message,List.filterMap_cons]

/-- A chunk starts with no byte order mark. -/
theorem head_chunks (chunks : List Chunk) :
    (chunks.flatMap Chunk.text).head?≠some '\uFEFF' := by
  cases chunks with
  | nil => exact Option.some_ne_none _ ∘ Eq.symm
  | cons chunk chunks => cases chunk <;> simp [Chunk.text,Chunk.line]

/-- The listener gets exactly the data that were written, in their order. -/
theorem streamMessages_chunks {chunks : List Chunk} (h : ∀ chunk∈chunks, OneLine chunk.line) :
    streamMessages (chunks.flatMap Chunk.text)=chunks.filterMap Chunk.message := by
  rw [streamMessages,streamLines,if_neg (head_chunks chunks),foldl_chunks h]
  rfl

end ScamLens.EventStreams
