import Mathlib.Data.List.Induction
import Mathlib.Data.Nat.Notation

/-!
# Messages behind a length of two bytes

A stream of bytes carries messages one behind another, each with its length in
front. Every stream is cut into its whole messages and a rest in one way only,
and the messages that were written are the ones that are cut.
-/

namespace ScamLens.LengthFrames

/-- A message is shorter than this, or its length needs a third byte. -/
def frameLimit : ℕ := 65536

/-- `len(message).to_bytes(2, "big")` of a message below the limit. -/
def lengthBytes (n : ℕ) : List UInt8 := [UInt8.ofNat (n/256),UInt8.ofNat (n%256)]

/-- `int.from_bytes(length_bytes, "big")` -/
def readLength (b1 b0 : UInt8) : ℕ := b1.toNat*256+b0.toNat

/-- A message with its length in front. -/
def frame (message : List UInt8) : List UInt8 := lengthBytes message.length++message

/-- The first message of a stream and the rest, if the message is whole. -/
def takeFrame : List UInt8 → Option (List UInt8×List UInt8)
  | b1::b0::body =>
    if readLength b1 b0≤body.length then
      some (body.take (readLength b1 b0),body.drop (readLength b1 b0))
    else none
  | _ => none

/-- The whole messages of a stream and the rest, in as many rounds. -/
def framesWithin : ℕ → List UInt8 → List (List UInt8)×List UInt8
  | 0,bytes => ([],bytes)
  | rounds+1,bytes =>
    match takeFrame bytes with
    | none => ([],bytes)
    | some (message,rest) =>
      let out := framesWithin rounds rest
      (message::out.1,out.2)

/-- The whole messages of a stream and the rest. Every message takes a byte, so
a round for each one is enough. -/
def frames (bytes : List UInt8) : List (List UInt8)×List UInt8 := framesWithin bytes.length bytes

/-- Two bytes are the length that they are read as. -/
theorem lengthBytes_readLength (b1 b0 : UInt8) : lengthBytes (readLength b1 b0)=[b1,b0] := by
  have h1 := b1.toNat_lt
  have h0 := b0.toNat_lt
  have hhigh : (b1.toNat*256+b0.toNat)/256=b1.toNat := by omega
  have hlow : (b1.toNat*256+b0.toNat)%256=b0.toNat := by omega
  rw [lengthBytes,readLength,hhigh,hlow,UInt8.ofNat_toNat,UInt8.ofNat_toNat]

/-- A length is read as it was written. -/
theorem readLength_lengthBytes {n : ℕ} (h : n<frameLimit) :
    readLength (UInt8.ofNat (n/256)) (UInt8.ofNat (n%256))=n := by
  have hn : n<65536 := h
  have hhigh : n/256<UInt8.size := Nat.div_lt_of_lt_mul hn
  have hlow : n%256<UInt8.size := Nat.mod_lt n (by decide)
  rw [readLength,UInt8.toNat_ofNat_of_lt' hhigh,UInt8.toNat_ofNat_of_lt' hlow]
  omega

/-- What two bytes are read as is below the limit. -/
theorem readLength_lt (b1 b0 : UInt8) : readLength b1 b0<frameLimit := by
  have h1 := b1.toNat_lt
  have h0 := b0.toNat_lt
  rw [readLength,frameLimit]
  omega

/-- A frame is two bytes longer than its message. -/
theorem length_frame (message : List UInt8) : (frame message).length=message.length+2 := by
  rw [frame,List.length_append]
  change 2+message.length=_
  omega

/-- The first message is the one that was written first. -/
theorem takeFrame_append {message : List UInt8} (h : message.length<frameLimit)
    (rest : List UInt8) : takeFrame (frame message++rest)=some (message,rest) := by
  have hbytes : frame message++rest=UInt8.ofNat (message.length/256)::
      UInt8.ofNat (message.length%256)::(message++rest) := rfl
  rw [hbytes,takeFrame,readLength_lengthBytes h,if_pos (by simp),List.take_left',List.drop_left']
  · rfl
  · rfl

/-- What is taken from a stream is what stands at its front. -/
theorem takeFrame_eq_some {bytes message rest : List UInt8}
    (h : takeFrame bytes=some (message,rest)) :
    bytes=frame message++rest ∧ message.length<frameLimit := by
  match bytes with
  | [] => cases h
  | [_] => cases h
  | b1::b0::body =>
    rw [takeFrame] at h
    obtain ⟨hlength,heq⟩ := Option.ite_none_right_eq_some.mp h
    obtain ⟨rfl,rfl⟩ := Prod.mk.inj (Option.some.inj heq)
    have htake : (body.take (readLength b1 b0)).length=readLength b1 b0 :=
      List.length_take_of_le hlength
    rw [frame,htake,lengthBytes_readLength,List.append_assoc,List.take_append_drop]
    exact ⟨rfl,readLength_lt b1 b0⟩

/-- More rounds than bytes change nothing. -/
theorem framesWithin_of_le {bytes : List UInt8} {rounds : ℕ} (h : bytes.length ≤ rounds) :
    framesWithin rounds bytes=frames bytes := by
  have hsame (n : ℕ) : ∀ (bytes : List UInt8) (m : ℕ), bytes.length≤n → n ≤ m →
      framesWithin m bytes=framesWithin n bytes := by
    induction n with
    | zero =>
      intro bytes m hn _
      obtain rfl : bytes=[] := List.length_eq_zero_iff.mp (Nat.le_zero.mp hn)
      cases m <;> rfl
    | succ n ih =>
      intro bytes m hn hm
      obtain ⟨m,rfl⟩ : ∃ k, m=k+1 := Nat.exists_eq_succ_of_ne_zero (by omega)
      rw [framesWithin,framesWithin]
      cases htake : takeFrame bytes with
      | none => rfl
      | some out =>
        have hlength := congrArg List.length (takeFrame_eq_some htake).1
        rw [List.length_append,length_frame] at hlength
        dsimp only
        rw [ih out.2 m (by omega) (by omega)]
  exact hsame _ _ _ (Nat.le_refl _) h

/-- The first whole message is cut, and the rest is cut in the same way. -/
theorem frames_append {message : List UInt8} (h : message.length<frameLimit)
    (rest : List UInt8) :
    frames (frame message++rest)=(message::(frames rest).1,(frames rest).2) := by
  have hlength : (frame message++rest).length=(message.length+1+rest.length)+1 := by
    rw [List.length_append,length_frame]
    omega
  rw [frames,hlength,framesWithin,takeFrame_append h]
  dsimp only
  rw [framesWithin_of_le (by omega)]

/-- A stream that does not start with a whole message has none. -/
theorem frames_of_takeFrame {bytes : List UInt8} (h : takeFrame bytes=none) :
    frames bytes=([],bytes) := by
  rw [frames]
  cases hlength : bytes.length with
  | zero => rfl
  | succ n => rw [framesWithin,h]

/-- The messages that were written are cut from the front. -/
theorem frames_flatMap {messages : List (List UInt8)}
    (h : ∀ message∈messages, message.length<frameLimit) (rest : List UInt8) :
    frames (messages.flatMap frame++rest)=(messages++(frames rest).1,(frames rest).2) := by
  induction messages with
  | nil => rfl
  | cons message messages ih =>
    obtain ⟨hmessage,hmessages⟩ := List.forall_mem_cons.mp h
    rw [List.flatMap_cons,List.append_assoc,frames_append hmessage,ih hmessages,
      List.cons_append]

/-- Written messages and nothing else are cut without a rest. -/
theorem frames_written {messages : List (List UInt8)}
    (h : ∀ message∈messages, message.length<frameLimit) :
    frames (messages.flatMap frame)=(messages,[]) := by
  have hcut := frames_flatMap h []
  rwa [List.append_nil,frames_of_takeFrame (show takeFrame []=none from rfl),
    List.append_nil] at hcut

end ScamLens.LengthFrames
