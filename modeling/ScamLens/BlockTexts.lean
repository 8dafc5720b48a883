import ScamLens.EventFeed
import ScamLens.EventStreams
import ScamLens.VerdictTexts

/-!
# Block events from the resolver to the browser

The resolver publishes a JSON object for a block of a user. The subscriber of
the API decodes it, the stream of a client encodes it again as one line of an
event stream, with comments in between, and the browser keeps the last blocks
in a list. No step loses or changes a field.
-/

namespace ScamLens.BlockTexts

open EventFeed EventStreams GuardianLinks JsonDumps JsonTexts PythonText Resolver VerdictTexts
open ModelAnswers (field)

section Publisher

/-- The object that `_resolve_then_log` publishes. -/
def blockFields (entry : BlockEntry) (userId : ℕ) (resolvedIp : Option Text) :
    List (Text×JsonValue) :=
  [("user_id".toList,.int userId),("domain".toList,.string entry.domain),
    ("reason".toList,.string entry.reason),("verdict".toList,.string (kindText entry.verdict)),
    ("risk_score".toList,.int entry.riskScore),("confidence".toList,.int entry.confidence),
    ("mimics_brand".toList,optionalText entry.mimicsBrand),
    ("resolved_ip".toList,optionalText resolvedIp)]

/-- The message that `_resolve_then_log` publishes for a block: none for a
client without a user, or when the encoder raises, which is only logged. -/
def publishText (float : PyFloat → Text) (depth : ℕ) (entry : BlockEntry)
    (resolvedIp : Option Text) : Option Text :=
  entry.userId.bind fun userId =>
    dumps float (depth+1) (.object (blockFields entry userId resolvedIp))

end Publisher

section Subscriber

/-- `event.get("user_id")`, as `isinstance` tells it. -/
def userIdField : JsonValue → UserIdField
  | .int n => .int n
  | .bool b => .bool b
  | _ => .other

/-- A field that is a string. -/
def stringField (fields : List (Text×JsonValue)) (key : String) : Option Text :=
  match fields.lookup key.toList with
  | some (.string s) => some s
  | _ => none

/-- The data of a channel message, as the loop of `run_subscriber` makes it out. -/
def payloadOf (depth : ℕ) (data : Option Text) : Payload :=
  match data.filter (· != []) with
  | none => .empty
  | some raw =>
    match loads depth raw with
    | .error _ => .notJson
    | .ok (.object fields) =>
      .object ((fields.lookup "user_id".toList).map userIdField)
        ⟨stringField fields "domain",stringField fields "verdict"⟩
    | .ok _ => .notObject

end Subscriber

section Stream

variable (float : PyFloat → Text) (depth : ℕ)

/-- What `_stream` yields for an event, or for half a minute without one; none
for an exception of the encoder. -/
def streamChunk : Option JsonValue → Option Text
  | none => some ": keepalive\n\n".toList
  | some event => (dumps float depth event).map fun text => "data: ".toList++text++"\n\n".toList

/-- The body of `_stream` for what its queue gives it. An exception of the
encoder ends the stream. -/
def streamBody : List (Option JsonValue) → Text
  | [] => []
  | item::items => (streamChunk float depth item).elim [] (·++streamBody items)

/-- The list of `useLiveBlocks` after the messages of a stream; what is no JSON
is ignored. -/
def liveBlocks {α : Type*} (parse : Text → Option α) (messages : List Text) : List α :=
  messages.foldl (fun blocks message =>
    (parse message).elim blocks fun data => (data::blocks).take 200) []

end Stream

section Flat

variable {float : PyFloat → Text}

/-- How deep the encoder may go makes no difference to flat fields. -/
theorem encodeFields_flat {fields : List (Text×JsonValue)}
    (h : ∀ entry∈fields, IsFlat entry.2) (first second : ℕ) :
    encodeFields float first fields=encodeFields float second fields := by
  induction fields with
  | nil => rfl
  | cons entry fields ih =>
    obtain ⟨key,value⟩ := entry
    obtain ⟨hvalue,hfields⟩ := List.forall_mem_cons.mp h
    have hencode : encode float first value=encode float second value := by
      cases value with
      | null => rfl
      | string t => rfl
      | int n => rfl
      | bool b => exact hvalue.elim
      | float x => exact hvalue.elim
      | array inner => exact hvalue.elim
      | object inner => exact hvalue.elim
    rw [encodeFields,encodeFields,hencode,ih hfields]

/-- Nor to an object of flat fields. -/
theorem dumps_flat {fields : List (Text×JsonValue)} (h : ∀ entry∈fields, IsFlat entry.2)
    (first second : ℕ) :
    dumps float (first+1) (.object fields)=dumps float (second+1) (.object fields) := by
  rw [dumps,dumps,encode,encode,encodeFields_flat h first second]

/-- The fields of a block are flat. -/
theorem isFlat_blockFields (entry : BlockEntry) (userId : ℕ) (resolvedIp : Option Text) :
    ∀ field∈blockFields entry userId resolvedIp, IsFlat field.2 := by
  simp only [blockFields,List.forall_mem_cons]
  exact ⟨trivial,trivial,trivial,trivial,trivial,trivial,isFlat_optionalText _,
    isFlat_optionalText _,List.forall_mem_nil _⟩

/-- The fields of a block have distinct keys and no floats. -/
theorem plain_blockFields (entry : BlockEntry) (userId : ℕ) (resolvedIp : Option Text) :
    JsonPlain (.object (blockFields entry userId resolvedIp)) := by
  have hkeys : (["user_id","domain","reason","verdict","risk_score","confidence","mimics_brand",
    "resolved_ip"].map String.toList).Nodup := by decide
  exact ⟨hkeys,by simp [blockFields,FieldsPlain,JsonPlain,plain_optionalText]⟩

end Flat

/-- A block that was published, with its message. -/
structure Published (float : PyFloat → Text) (depth : ℕ) where
  /-- The block. -/
  entry : BlockEntry
  /-- Its user. -/
  userId : ℕ
  /-- The address that the blocked name would have had. -/
  resolvedIp : Option Text
  /-- The message. -/
  text : Text
  /-- The user is the one of the block. -/
  user : entry.userId=some userId
  /-- The message is what the resolver publishes. -/
  published : publishText float depth entry resolvedIp=some text

namespace Published

variable {float : PyFloat → Text} {depth : ℕ} (e : Published float depth)

/-- A block is published when it has a user and its integers can be written. -/
theorem exists_of_user {entry : BlockEntry} {userId : ℕ} (huser : entry.userId=some userId)
    (hwritten : ∀ n∈[(userId : ℤ),entry.riskScore,entry.confidence], (encodeInt n).isSome=true)
    (resolvedIp : Option Text) :
    ∃ e : Published float depth, e.entry=entry ∧ e.resolvedIp=resolvedIp := by
  simp only [List.forall_mem_cons,Option.isSome_iff_exists] at hwritten
  obtain ⟨⟨user,huserText⟩,⟨risk,hrisk⟩,⟨confidence,hconfidence⟩,-⟩ := hwritten
  have hoptional (t : Option Text) : ∃ part, encode float depth (optionalText t)=some part := by
    cases t <;> exact ⟨_,rfl⟩
  obtain ⟨brand,hbrand⟩ := hoptional entry.mimicsBrand
  obtain ⟨ip,hip⟩ := hoptional resolvedIp
  have hpublished : ∃ text, publishText float depth entry resolvedIp=some text := by
    rw [publishText,huser,Option.bind_some,dumps,encode,blockFields]
    simp [encodeFields,encode,huserText,hrisk,hconfidence,hbrand,hip]
  obtain ⟨text,htext⟩ := hpublished
  exact ⟨⟨entry,userId,resolvedIp,text,huser,htext⟩,rfl,rfl⟩

/-- The message is the object of the block. -/
theorem dumps_blockFields :
    dumps float (depth+1) (.object (blockFields e.entry e.userId e.resolvedIp))=some e.text := by
  have hpublished := e.published
  rw [publishText,e.user] at hpublished
  exact hpublished

/-- The dictionary of the event. -/
def event : JsonValue := .object (blockFields e.entry e.userId e.resolvedIp)

/-- The fields of the event that the subscriber reads. -/
def blockEvent : BlockEvent := ⟨some e.entry.domain,some (kindText e.entry.verdict)⟩

/-- Every service writes the event in the same way. -/
theorem dumps_event (other : ℕ) : dumps float (other+1) e.event=some e.text :=
  (dumps_flat (isFlat_blockFields _ _ _) other depth).trans e.dumps_blockFields

/-- The subscriber decodes the event that was published. -/
theorem loads_text (other : ℕ) : loads (other+1) e.text=.ok e.event :=
  loads_dumps (e.dumps_event other) (plain_blockFields _ _ _)

/-- The message is not empty. -/
theorem text_ne_nil : e.text≠[] :=
  (reads_encode e.dumps_blockFields (plain_blockFields _ _ _)).ne_nil

/-- The subscriber makes out the user and the event. -/
theorem payloadOf_text (other : ℕ) :
    payloadOf (other+1) (some e.text)=.object (some (.int e.userId)) e.blockEvent := by
  have hne : (some e.text).filter (· != [])=some e.text :=
    Option.filter_eq_some_iff.mpr ⟨rfl,bne_iff_ne.mpr e.text_ne_nil⟩
  rw [payloadOf,hne]
  simp only [e.loads_text]
  rfl

/-- The message stays within a line. -/
theorem oneLine_text : OneLine (Chunk.data e.text).line := by
  have hprintable := printable_encode e.dumps_blockFields (plain_blockFields _ _ _)
  refine List.forall_mem_append.mpr ⟨by decide,fun c hc => ?_⟩
  have hrange := hprintable c hc
  have hbreak : ¬Printable '\r' ∧ ¬Printable '\n' := by decide
  exact ⟨fun h => hbreak.1 (h ▸ hrange),fun h => hbreak.2 (h ▸ hrange)⟩

/-- The chunk that the stream of a client sends for what its queue gives. -/
def chunk : Option (Published float depth) → Chunk
  | none => .comment " keepalive".toList
  | some e => .data e.text

/-- What the stream yields is the text of a chunk. -/
theorem streamChunk_eq (other : ℕ) (item : Option (Published float depth)) :
    streamChunk float (other+1) (item.map event)=some (chunk item).text := by
  have hbreak : "\n\n".toList=['\n','\n'] := by decide
  cases item with
  | none =>
    have hkeep : ": keepalive\n\n".toList= ':'::(" keepalive".toList++['\n','\n']) := by decide
    rw [Option.map_none,streamChunk,hkeep]
    rfl
  | some e =>
    rw [Option.map_some,streamChunk,e.dumps_event,Option.map_some,hbreak]
    rfl

/-- The body of a stream is made of chunks. -/
theorem streamBody_eq (other : ℕ) (items : List (Option (Published float depth))) :
    streamBody float (other+1) (items.map (Option.map event))=
      (items.map chunk).flatMap Chunk.text := by
  induction items with
  | nil => rfl
  | cons item items ih =>
    rw [List.map_cons,streamBody,streamChunk_eq,Option.elim_some,ih,List.map_cons,
      List.flatMap_cons]

/-- The chunks of a stream are lines. -/
theorem oneLine_chunk (item : Option (Published float depth)) : OneLine (chunk item).line := by
  cases item with
  | none =>
    change OneLine (':'::" keepalive".toList)
    decide
  | some e => exact e.oneLine_text

end Published

/-- What is cut off before the next element is cut off behind it. -/
theorem take_cons_take {α : Type*} (a : α) (l : List α) (n : ℕ) :
    (a::l.take (n+1)).take (n+1)=(a::l).take (n+1) := by
  rw [List.take_succ_cons,List.take_succ_cons,List.take_take,Nat.min_eq_left n.le_succ]

/-- The list of the browser holds the last blocks, the newest one first. -/
theorem liveBlocks_eq {α : Type*} (parse : Text → Option α) (messages : List Text) :
    liveBlocks parse messages=((messages.filterMap parse).reverse).take 200 := by
  induction messages using List.reverseRecOn with
  | nil => rfl
  | append_singleton messages message ih =>
    have hstep : liveBlocks parse (messages++[message])=
        (parse message).elim (liveBlocks parse messages)
          fun data => (data::liveBlocks parse messages).take 200 := by
      rw [liveBlocks,List.foldl_append]
      rfl
    rw [hstep,ih,List.filterMap_append,List.reverse_append]
    cases hparse : parse message with
    | none => simp [hparse]
    | some data =>
      rw [Option.elim_some,take_cons_take]
      simp [hparse]

/-- A block of a user is published when its integers can be written. Whatever
blocks are published, the subscriber makes out the user and the fields of each;
and when the stream of a client is given them, with pauses in between, the
browser gets exactly their messages in order, each of which reads as the object
that was published, and lists the last two hundred. -/
theorem blocks_reach_browser (float : PyFloat → Text) (publisher reader writer : ℕ)
    (items : List (Option (Published float publisher))) {α : Type*} (parse : Text → Option α) :
    let body := streamBody float (writer+1) (items.map (Option.map Published.event))
    (∀ (entry : BlockEntry) (userId : ℕ) (resolvedIp : Option Text), entry.userId=some userId →
      (∀ n∈[(userId : ℤ),entry.riskScore,entry.confidence], (encodeInt n).isSome=true) →
      ∃ e : Published float publisher, e.entry=entry ∧ e.resolvedIp=resolvedIp) ∧
    (∀ e, some e∈items →
      loads (reader+1) e.text=.ok (.object (blockFields e.entry e.userId e.resolvedIp)) ∧
      (payloadOf (reader+1) (some e.text)).wellFormed=some ((e.userId : ℤ),e.blockEvent)) ∧
    streamMessages body=items.filterMap (Option.map Published.text) ∧
    liveBlocks parse (streamMessages body)=
      (((items.filterMap (Option.map Published.text)).filterMap parse).reverse).take 200 := by
  have hmessages : streamMessages
      (streamBody float (writer+1) (items.map (Option.map Published.event)))=
        items.filterMap (Option.map Published.text) := by
    have hlines : ∀ chunk∈items.map Published.chunk, OneLine chunk.line := by
      intro chunk hchunk
      obtain ⟨item,-,rfl⟩ := List.mem_map.mp hchunk
      exact Published.oneLine_chunk item
    rw [Published.streamBody_eq,streamMessages_chunks hlines,List.filterMap_map]
    refine List.filterMap_congr fun item _ => ?_
    cases item <;> rfl
  refine ⟨fun entry userId resolvedIp huser hwritten =>
    Published.exists_of_user huser hwritten resolvedIp,
    fun e _ => ⟨e.loads_text reader,?_⟩,hmessages,?_⟩
  · rw [e.payloadOf_text]
    rfl
  · rw [hmessages,liveBlocks_eq]

/-- A block of a user by the verdict of a scan. -/
def sampleEntry : BlockEntry :=
  ⟨"bad.tk".toList,"fake login".toList,.scam,95,90,none,some "192.0.2.9".toList,some 7⟩

/-- What is published for it. -/
def sampleText : Text :=
  "\x7b\"user_id\": 7, \"domain\": \"bad.tk\", \"reason\": \"fake login\", ".toList++
    "\"verdict\": \"scam\", \"risk_score\": 95, \"confidence\": 90, ".toList++
      "\"mimics_brand\": null, \"resolved_ip\": null\x7d".toList

/-- The block between two pauses is the one message of the stream. -/
theorem blocks_reach_browser_badTk :
    publishText (fun _ => []) 0 sampleEntry none=some sampleText ∧
      streamMessages (streamBody (fun _ => []) 1
        [none,some (.object (blockFields sampleEntry 7 none)),none])=[sampleText] := by
  have htext : publishText (fun _ => []) 0 sampleEntry none=some sampleText := by decide +kernel
  refine ⟨htext,?_⟩
  exact (blocks_reach_browser (fun _ => []) 0 0 0
    [none,some ⟨sampleEntry,7,none,sampleText,rfl,htext⟩,none] (some ·)).2.2.1

end ScamLens.BlockTexts
