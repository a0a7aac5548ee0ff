import RadardFormal.Overlay.ZeroCopyStream
import RadardFormal.Support.Bytes
import RadardFormal.Support.Bits

/-!
# Peer message framing

A frame on a peer connection is a six-byte header, the payload size in four bytes and the
message type in two (most significant first), then the serialized message.
`invokeProtocolMessage` reads one frame from the front of the read buffer and calls the
handler for it; `PeerImp::onReadMessage` calls it until it consumes nothing.

The header round trip is `size_new` and `type_new`.  `invokeProtocolMessage` depends on the
buffer sequence only through its bytes (`invokeProtocolMessage_congr`), and what it does with
a frame is `invokeProtocolMessage_new`: the parser of a known type is handed the payload and
every byte after it in the buffer, since `detail::invoke` opens its stream over the whole
sequence.  A complete frame of type 0 is reported as no frame at all.
-/

namespace RadardFormal.Overlay

open RadardFormal.Support

/-- `Message::kHeaderBytes`. -/
def kHeaderBytes : Nat := 6

/-- `protocol::MessageType`. -/
inductive MessageType
  | mtHELLO | mtMANIFESTS | mtPING | mtPROOFOFWORK | mtCLUSTER | mtGET_PEERS | mtPEERS
  | mtENDPOINTS | mtTRANSACTION | mtGET_LEDGER | mtLEDGER_DATA | mtPROPOSE_LEDGER
  | mtSTATUS_CHANGE | mtHAVE_SET | mtVALIDATION | mtGET_OBJECTS
  deriving DecidableEq, Repr

namespace MessageType

def toNat : MessageType → Nat
  | mtHELLO => 1
  | mtMANIFESTS => 2
  | mtPING => 3
  | mtPROOFOFWORK => 4
  | mtCLUSTER => 5
  | mtGET_PEERS => 12
  | mtPEERS => 13
  | mtENDPOINTS => 15
  | mtTRANSACTION => 30
  | mtGET_LEDGER => 31
  | mtLEDGER_DATA => 32
  | mtPROPOSE_LEDGER => 33
  | mtSTATUS_CHANGE => 34
  | mtHAVE_SET => 35
  | mtVALIDATION => 41
  | mtGET_OBJECTS => 42

/-- The case labels of `invokeProtocolMessage`'s switch: the types it parses.  Proof of work
has no case and goes to `onMessageUnknown` with every other type. -/
def dispatch : Nat → Option MessageType
  | 1 => some mtHELLO
  | 2 => some mtMANIFESTS
  | 3 => some mtPING
  | 5 => some mtCLUSTER
  | 12 => some mtGET_PEERS
  | 13 => some mtPEERS
  | 15 => some mtENDPOINTS
  | 30 => some mtTRANSACTION
  | 31 => some mtGET_LEDGER
  | 32 => some mtLEDGER_DATA
  | 33 => some mtPROPOSE_LEDGER
  | 34 => some mtSTATUS_CHANGE
  | 35 => some mtHAVE_SET
  | 41 => some mtVALIDATION
  | 42 => some mtGET_OBJECTS
  | _ => none

theorem toNat_lt (kind : MessageType) : kind.toNat < 2 ^ 16 := by
  cases kind <;> decide

theorem toNat_pos (kind : MessageType) : 0 < kind.toNat := by
  cases kind <;> decide

theorem dispatch_eq_some {type : Nat} {kind : MessageType} (found : dispatch type = some kind) :
    kind.toNat = type := by
  unfold dispatch at found
  split at found <;> cases found <;> rfl

end MessageType

/-- `boost::system::error_code`, as far as the framing tells codes apart. -/
inductive ErrorCode
  | success
  | invalidArgument
  | other (value : Nat)
  deriving DecidableEq, Repr

namespace Message

/-- `Message::encodeHeader`, and the header `write (streambuf, m, type)` puts in front of a
message: each byte is `static_cast<std::uint8_t>((x >> shift) & 0xFF)`. -/
def encodeHeader (size type : Nat) : List UInt8 :=
  [UInt8.ofNat ((size >>> 24) &&& 0xFF), UInt8.ofNat ((size >>> 16) &&& 0xFF),
    UInt8.ofNat ((size >>> 8) &&& 0xFF), UInt8.ofNat (size &&& 0xFF),
    UInt8.ofNat ((type >>> 8) &&& 0xFF), UInt8.ofNat (type &&& 0xFF)]

/-- `Message::Message`: `mBuffer` holds the header and then the serialized message. -/
def new (payload : List UInt8) (type : Nat) : List UInt8 :=
  encodeHeader payload.length type ++ payload

/-- `write (streambuf, m, type)`: the header and then the serialized message, after what the
stream buffer holds. -/
def write (streambuf : List UInt8) (payload : List UInt8) (type : Nat) : List UInt8 :=
  streambuf ++ (encodeHeader payload.length type ++ payload)

/-- `Message::size` of a buffer sequence, read through `buffers_begin` and `buffers_end`. -/
def size (buffers : Buffers) : Nat :=
  let bytes := buffers.flatten
  if bytes.length < kHeaderBytes then 0
  else
    (bytes.getD 0 0).toNat <<< 24 + (bytes.getD 1 0).toNat <<< 16 +
      (bytes.getD 2 0).toNat <<< 8 + (bytes.getD 3 0).toNat

/-- `Message::type` of a buffer sequence. -/
def type (buffers : Buffers) : Nat :=
  let bytes := buffers.flatten
  if bytes.length < kHeaderBytes then 0
  else (bytes.getD 4 0).toNat <<< 8 ||| (bytes.getD 5 0).toNat

/-- A byte `(x >> 8k) & 0xFF` is digit `k` of `x` in base 256. -/
theorem ofNat_shiftRight_and (x k : Nat) :
    UInt8.ofNat ((x >>> (8 * k)) &&& 0xFF) = UInt8.ofNat (x / 256 ^ k) := by
  apply UInt8.toNat.inj
  have mask : (0xFF : Nat) = 2 ^ 8 - 1 := rfl
  have base : (256 : Nat) ^ k = 2 ^ (8 * k) := by rw [Nat.pow_mul]
  rw [UInt8.toNat_ofNat', UInt8.toNat_ofNat', mask, Nat.and_two_pow_sub_one_eq_mod,
    Nat.mod_mod, Nat.shiftRight_eq_div_pow, base]

theorem encodeHeader_eq (size type : Nat) :
    encodeHeader size type = Bytes.bigEndian 4 size ++ Bytes.bigEndian 2 type := by
  simp only [encodeHeader, Bytes.bigEndian, List.cons_append, List.nil_append, List.cons.injEq]
  exact ⟨ofNat_shiftRight_and size 3, ofNat_shiftRight_and size 2, ofNat_shiftRight_and size 1,
    ofNat_shiftRight_and size 0, ofNat_shiftRight_and type 1, ofNat_shiftRight_and type 0, trivial⟩

/-- The four size bytes, shifted into place, are their big-endian number. -/
theorem size_eq {buffers : Buffers} (long : kHeaderBytes ≤ bufferSize buffers) :
    size buffers = Bytes.ofBigEndian (buffers.flatten.take 4) := by
  dsimp only [size, bufferSize, kHeaderBytes] at long ⊢
  generalize buffers.flatten = bytes at long ⊢
  match bytes, long with
  | b0 :: b1 :: b2 :: b3 :: b4 :: b5 :: rest, _ =>
    simp only [List.length_cons, List.getD_cons_zero, List.getD_cons_succ, List.take_succ_cons,
      List.take_zero, Bytes.ofBigEndian, List.length_nil, Nat.shiftLeft_eq]
    rw [if_neg (by omega)]
    omega

/-- The two type bytes, side by side, are their big-endian number. -/
theorem type_eq {buffers : Buffers} (long : kHeaderBytes ≤ bufferSize buffers) :
    type buffers = Bytes.ofBigEndian ((buffers.flatten.drop 4).take 2) := by
  dsimp only [type, bufferSize, kHeaderBytes] at long ⊢
  generalize buffers.flatten = bytes at long ⊢
  match bytes, long with
  | b0 :: b1 :: b2 :: b3 :: b4 :: b5 :: rest, _ =>
    simp only [List.length_cons, List.getD_cons_succ, List.getD_cons_zero, List.drop_succ_cons,
      List.drop_zero, List.take_succ_cons, List.take_zero, Bytes.ofBigEndian, List.length_nil]
    rw [if_neg (by omega), Bits.shiftLeft_or_eq_add b5.toNat_lt]
    omega

/-- `Message::size` reads back the size `Message::Message` wrote, modulo `2 ^ 32`. -/
theorem size_new {buffers : Buffers} {payload rest : List UInt8} {type : Nat}
    (split : buffers.flatten = new payload type ++ rest) :
    size buffers = payload.length % 2 ^ 32 := by
  have long : kHeaderBytes ≤ bufferSize buffers := by
    simp [bufferSize, split, new, encodeHeader, kHeaderBytes]
  rw [size_eq long, split, new, encodeHeader_eq, List.append_assoc, List.append_assoc,
    List.take_left' (Bytes.length_bigEndian 4 _), Bytes.ofBigEndian_bigEndian]
  rfl

/-- `Message::type` reads back the type `Message::Message` wrote, modulo `2 ^ 16`. -/
theorem type_new {buffers : Buffers} {payload rest : List UInt8} {type : Nat}
    (split : buffers.flatten = new payload type ++ rest) :
    Message.type buffers = type % 2 ^ 16 := by
  have long : kHeaderBytes ≤ bufferSize buffers := by
    simp [bufferSize, split, new, encodeHeader, kHeaderBytes]
  rw [type_eq long, split, new, encodeHeader_eq, List.append_assoc, List.append_assoc,
    List.drop_left' (Bytes.length_bigEndian 4 _),
    List.take_left' (Bytes.length_bigEndian 2 _), Bytes.ofBigEndian_bigEndian]
  rfl

/-- `write` puts the same bytes on the wire as `Message::Message` builds. -/
theorem write_eq_new (streambuf payload : List UInt8) (type : Nat) :
    write streambuf payload type = streambuf ++ new payload type := rfl

end Message

/-- The handler `invokeProtocolMessage` calls back (`PeerImp`), over its state. -/
structure Handler (σ M : Type) where
  onMessageBegin : σ → Nat → M → Nat → ErrorCode × σ
  onMessage : σ → MessageType → M → σ
  onMessageEnd : σ → Nat → M → σ
  onMessageUnknown : σ → Nat → ErrorCode × σ

/-- `ParseFromZeroCopyStream` of each message type, as a function of the bytes it reads. -/
abbrev Parser (M : Type) := MessageType → List UInt8 → Option M

variable {σ M : Type}

/-- `detail::invoke` once the message is parsed, or has failed to parse. -/
def handleParsed (handler : Handler σ M) (kind : MessageType) (type size : Nat) (state : σ) :
    Option M → ErrorCode × σ
  | none => (.invalidArgument, state)
  | some m =>
    let begun := handler.onMessageBegin state type m size
    if begun.1 = .success then
      (begun.1, handler.onMessageEnd (handler.onMessage begun.2 kind m) type m)
    else begun

/-- `detail::invoke<T>`: parse the message from a stream over the whole buffer sequence,
past the header, and hand it to the handler. -/
def invoke (parse : Parser M) (kind : MessageType) (type : Nat) (buffers : Buffers)
    (handler : Handler σ M) (state : σ) : ErrorCode × σ :=
  let stream := ((ZeroCopyInputStream.new buffers).skip kHeaderBytes).2
  handleParsed handler kind type (kHeaderBytes + Message.size buffers) state
    (parse kind stream.readAll)

/-- The end of `invokeProtocolMessage`: `size` bytes are consumed when there is no error. -/
def consumedOn (size : Nat) : ErrorCode × σ → (Nat × ErrorCode) × σ
  | (ec, state) => ((if ec = .success then size else 0, ec), state)

/-- `invokeProtocolMessage`: the bytes consumed and the error code, for up to one message. -/
def invokeProtocolMessage (parse : Parser M) (buffers : Buffers) (handler : Handler σ M)
    (state : σ) : (Nat × ErrorCode) × σ :=
  let type := Message.type buffers
  if type = 0 then ((0, .success), state)
  else
    let size := kHeaderBytes + Message.size buffers
    if bufferSize buffers < size then ((0, .success), state)
    else
      consumedOn size
        (match MessageType.dispatch type with
          | some kind => invoke parse kind type buffers handler state
          | none => handler.onMessageUnknown state type)

/-- The parser is handed every byte after the header. -/
theorem invoke_eq (parse : Parser M) (kind : MessageType) (type : Nat) (buffers : Buffers)
    (handler : Handler σ M) (state : σ) :
    invoke parse kind type buffers handler state =
      handleParsed handler kind type (kHeaderBytes + Message.size buffers) state
        (parse kind (buffers.flatten.drop kHeaderBytes)) := by
  rw [invoke, ZeroCopyInputStream.readAll_skip_new, Int.toNat_natCast]

/-- However the bytes are cut into chunks, `invokeProtocolMessage` does the same. -/
theorem invokeProtocolMessage_congr (parse : Parser M) {buffers other : Buffers}
    (same : buffers.flatten = other.flatten) (handler : Handler σ M) (state : σ) :
    invokeProtocolMessage parse buffers handler state =
      invokeProtocolMessage parse other handler state := by
  simp only [invokeProtocolMessage, invoke_eq, Message.size, Message.type, bufferSize, same]

/-- A frame of a type the switch parses: its parser is handed the payload and everything after
it, and the frame is consumed when the handler reports no error. -/
theorem invokeProtocolMessage_new (parse : Parser M) {buffers : Buffers} {kind : MessageType}
    {payload rest : List UInt8} (split : buffers.flatten = Message.new payload kind.toNat ++ rest)
    (fits : payload.length < 2 ^ 32) (parsed : MessageType.dispatch kind.toNat = some kind)
    (handler : Handler σ M) (state : σ) :
    invokeProtocolMessage parse buffers handler state =
      consumedOn (kHeaderBytes + payload.length)
        (handleParsed handler kind kind.toNat (kHeaderBytes + payload.length) state
          (parse kind (payload ++ rest))) := by
  have size := Message.size_new split
  have type := Message.type_new split
  rw [Nat.mod_eq_of_lt fits] at size
  rw [Nat.mod_eq_of_lt kind.toNat_lt] at type
  have whole : bufferSize buffers = kHeaderBytes + payload.length + rest.length := by
    simp [bufferSize, split, Message.new, Message.encodeHeader, kHeaderBytes]
    omega
  have after : buffers.flatten.drop kHeaderBytes = payload ++ rest := by
    rw [split, Message.new, List.append_assoc]
    exact List.drop_left' (by simp [Message.encodeHeader, kHeaderBytes])
  simp only [invokeProtocolMessage, type, size, if_neg (Nat.ne_of_gt kind.toNat_pos), whole,
    show ¬(kHeaderBytes + payload.length + rest.length < kHeaderBytes + payload.length) by omega,
    if_false, parsed, invoke_eq, after]

/-- A buffer whose type bytes are zero is taken for an incomplete frame, whatever it holds. -/
theorem invokeProtocolMessage_type_zero (parse : Parser M) {buffers : Buffers}
    (zero : Message.type buffers = 0) (handler : Handler σ M) (state : σ) :
    invokeProtocolMessage parse buffers handler state = ((0, .success), state) := by
  rw [invokeProtocolMessage, if_pos zero]

/-- What is consumed is nothing or the whole frame, which the buffer holds. -/
theorem invokeProtocolMessage_consumed (parse : Parser M) (buffers : Buffers)
    (handler : Handler σ M) (state : σ) :
    (invokeProtocolMessage parse buffers handler state).1.1 = 0 ∨
      ((invokeProtocolMessage parse buffers handler state).1.1 =
          kHeaderBytes + Message.size buffers ∧
        kHeaderBytes + Message.size buffers ≤ bufferSize buffers) := by
  dsimp only [invokeProtocolMessage]
  split
  · exact .inl rfl
  · split
    · exact .inl rfl
    · rename_i short
      generalize (match MessageType.dispatch (Message.type buffers) with
        | some kind => invoke parse kind (Message.type buffers) buffers handler state
        | none => handler.onMessageUnknown state (Message.type buffers)) = reported
      obtain ⟨ec, after⟩ := reported
      by_cases ok : ec = .success
      · exact .inr ⟨by simp [consumedOn, ok], by omega⟩
      · exact .inl (by simp [consumedOn, ok])

/-- `streambuf::consume`: drop `n` bytes from the front of the readable blocks, erasing each
block that is used up. -/
def consume : Buffers → Nat → Buffers
  | [], _ => []
  | block :: rest, n => if n < block.length then block.drop n :: rest else consume rest (n - block.length)

theorem flatten_consume (buffers : Buffers) (n : Nat) :
    (consume buffers n).flatten = buffers.flatten.drop n := by
  induction buffers generalizing n with
  | nil => rw [consume, List.flatten_nil, List.drop_nil]
  | cons block rest ih =>
    rw [consume, List.flatten_cons, List.drop_append]
    split
    · rename_i inside
      rw [List.flatten_cons, Nat.sub_eq_zero_of_le inside.le, List.drop_zero]
    · rename_i beyond
      rw [ih, List.drop_eq_nil_of_le (show block.length ≤ n by omega), List.nil_append]

/-- `PeerImp` as `onReadMessage` sees it: the handler, and whether the socket is still open
and no graceful close has begun. -/
structure Peer (σ M : Type) extends Handler σ M where
  isOpen : σ → Bool
  gracefulClose : σ → Bool

/-- How the loop of `onReadMessage` ends. -/
inductive ReadEnd
  | failed (ec : ErrorCode)
  | closed
  | waiting
  deriving DecidableEq, Repr

theorem consume_decreases {buffers : Buffers} {consumed : Nat} (positive : 0 < consumed)
    (within : consumed ≤ bufferSize buffers) :
    bufferSize (consume buffers consumed) < bufferSize buffers := by
  rw [bufferSize, flatten_consume, List.length_drop]
  exact Nat.sub_lt (by unfold bufferSize at within; omega) positive

theorem invokeProtocolMessage_decreases (parse : Parser M) (buffers : Buffers)
    (handler : Handler σ M) (state : σ)
    (nonzero : (invokeProtocolMessage parse buffers handler state).1.1 ≠ 0) :
    bufferSize (consume buffers (invokeProtocolMessage parse buffers handler state).1.1) <
      bufferSize buffers := by
  rcases invokeProtocolMessage_consumed parse buffers handler state with none | ⟨whole, fits⟩
  · exact absurd none nonzero
  · exact consume_decreases (Nat.pos_of_ne_zero nonzero) (whole ▸ fits)

/-- The loop of `PeerImp::onReadMessage`: frames are handed on while the buffer holds bytes,
until one is incomplete, fails or closes the peer. -/
def readLoop (parse : Parser M) (peer : Peer σ M) (buffer : Buffers) (state : σ) :
    ReadEnd × Buffers × σ :=
  if 0 < bufferSize buffer then
    let invoked := invokeProtocolMessage parse buffer peer.toHandler state
    if invoked.1.2 ≠ .success then (.failed invoked.1.2, buffer, invoked.2)
    else if !peer.isOpen invoked.2 || peer.gracefulClose invoked.2 then (.closed, buffer, invoked.2)
    else if _consumed : invoked.1.1 = 0 then (.waiting, buffer, invoked.2)
    else readLoop parse peer (consume buffer invoked.1.1) invoked.2
  else (.waiting, buffer, state)
termination_by bufferSize buffer
decreasing_by exact invokeProtocolMessage_decreases parse buffer peer.toHandler state _consumed

/-- `PeerImp::onReadMessage` after a read: the bytes are committed to the buffer and the loop
runs. -/
def onReadMessage (parse : Parser M) (peer : Peer σ M) (buffer : Buffers) (received : List UInt8)
    (state : σ) : ReadEnd × Buffers × σ :=
  readLoop parse peer (buffer ++ [received]) state

theorem readLoop_of_empty (parse : Parser M) (peer : Peer σ M) {buffer : Buffers}
    (empty : bufferSize buffer = 0) (state : σ) :
    readLoop parse peer buffer state = (.waiting, buffer, state) := by
  rw [readLoop, if_neg (by omega)]

/-- A call that consumes nothing and reports no error ends the loop with the buffer kept. -/
theorem readLoop_of_none (parse : Parser M) (peer : Peer σ M) {buffer : Buffers} {state after : σ}
    (nonempty : 0 < bufferSize buffer)
    (invoked : invokeProtocolMessage parse buffer peer.toHandler state = ((0, .success), after)) :
    readLoop parse peer buffer state =
      (if !peer.isOpen after || peer.gracefulClose after then .closed else .waiting, buffer, after) := by
  rw [readLoop, if_pos nonempty]
  simp only [invoked, ne_eq, not_true_eq_false, if_false]
  split
  · rfl
  · rfl

/-- A frame consumed without error, with the peer still open, lets the loop go on with the
rest of the buffer. -/
theorem readLoop_of_consumed (parse : Parser M) (peer : Peer σ M) {buffer : Buffers}
    {state after : σ} {consumed : Nat} (nonempty : 0 < bufferSize buffer) (positive : 0 < consumed)
    (invoked : invokeProtocolMessage parse buffer peer.toHandler state = ((consumed, .success), after))
    (opened : peer.isOpen after = true) (ungraceful : peer.gracefulClose after = false) :
    readLoop parse peer buffer state = readLoop parse peer (consume buffer consumed) after := by
  rw [readLoop, if_pos nonempty]
  simp only [invoked, ne_eq, not_true_eq_false, if_false, opened, ungraceful, Bool.not_true,
    Bool.or_false, Bool.false_eq_true, dif_neg (Nat.ne_of_gt positive)]

/-- The bytes a sender puts on the wire for a sequence of messages, each a type and its
serialized payload. -/
def frames (messages : List (MessageType × List UInt8)) : List UInt8 :=
  messages.flatMap fun message => Message.new message.2 message.1.toNat

/-- Frame after frame, as the loop hands them on: each message is parsed from its payload and
everything after it in the buffer; `none` once a parse fails. -/
def deliverFrames (parse : Parser M) (handler : Handler σ M) (tail : List UInt8) :
    List (MessageType × List UInt8) → σ → Option σ
  | [], state => some state
  | (kind, payload) :: later, state =>
    match parse kind (payload ++ frames later ++ tail) with
    | none => none
    | some m =>
      deliverFrames parse handler tail later
        (handleParsed handler kind kind.toNat (kHeaderBytes + payload.length) state (some m)).2

/-- Bytes that do not yet make a frame `invokeProtocolMessage` will take. -/
def Incomplete (tail : List UInt8) : Prop :=
  Message.type [tail] = 0 ∨ tail.length < kHeaderBytes + Message.size [tail]

theorem handleParsed_of_success (handler : Handler σ M) (kind : MessageType) {type size : Nat}
    {state : σ} {m : M} (accepted : (handler.onMessageBegin state type m size).1 = .success) :
    handleParsed handler kind type size state (some m) =
      (.success, handler.onMessageEnd
        (handler.onMessage (handler.onMessageBegin state type m size).2 kind m) type m) := by
  simp only [handleParsed, accepted, if_true]

theorem invokeProtocolMessage_of_incomplete (parse : Parser M) {buffer : Buffers}
    {tail : List UInt8} (split : buffer.flatten = tail) (incomplete : Incomplete tail)
    (handler : Handler σ M) (state : σ) :
    invokeProtocolMessage parse buffer handler state = ((0, .success), state) := by
  have same : buffer.flatten = [tail].flatten := by rw [split, List.flatten_singleton]
  rw [invokeProtocolMessage_congr parse same]
  rcases incomplete with zero | short
  · exact invokeProtocolMessage_type_zero parse zero handler state
  · have whole : bufferSize [tail] = tail.length := by rw [bufferSize, List.flatten_singleton]
    dsimp only [invokeProtocolMessage]
    rw [whole, if_pos short]
    split <;> rfl

section Run

variable (parse : Parser M) (peer : Peer σ M)
  (accepts : ∀ state type m size, (peer.onMessageBegin state type m size).1 = .success)
  (stays : ∀ state, peer.isOpen state = true ∧ peer.gracefulClose state = false)

include accepts stays in
/-- A peer that accepts every message and stays open is handed the frames of its buffer in
order, each message parsed from its payload and the bytes after it, until an incomplete frame
is left waiting for more bytes. -/
theorem readLoop_frames (messages : List (MessageType × List UInt8)) {tail : List UInt8}
    (fits : ∀ message ∈ messages,
      message.2.length < 2 ^ 32 ∧ MessageType.dispatch message.1.toNat = some message.1)
    (incomplete : Incomplete tail) {buffer : Buffers} (split : buffer.flatten = frames messages ++ tail)
    {state final : σ} (delivered : deliverFrames parse peer.toHandler tail messages state = some final) :
    ∃ rest : Buffers, rest.flatten = tail ∧ readLoop parse peer buffer state = (.waiting, rest, final) := by
  induction messages generalizing buffer state with
  | nil =>
    cases delivered
    refine ⟨buffer, split, ?_⟩
    by_cases empty : bufferSize buffer = 0
    · exact readLoop_of_empty parse peer empty final
    · have invoked := invokeProtocolMessage_of_incomplete parse split incomplete peer.toHandler final
      rw [readLoop_of_none parse peer (by omega) invoked, (stays final).1, (stays final).2]
      rfl
  | cons message later ih =>
    obtain ⟨kind, payload⟩ := message
    obtain ⟨fit, parsed⟩ := fits _ List.mem_cons_self
    have framed : buffer.flatten = Message.new payload kind.toNat ++ (frames later ++ tail) := by
      rw [split, frames, List.flatMap_cons, List.append_assoc]
      rfl
    unfold deliverFrames at delivered
    split at delivered
    · cases delivered
    · rename_i m parsedAs
      rw [List.append_assoc] at parsedAs
      have invoked := invokeProtocolMessage_new parse framed fit parsed peer.toHandler state
      rw [parsedAs, handleParsed_of_success _ _ (accepts _ _ _ _)] at invoked
      rw [handleParsed_of_success _ _ (accepts _ _ _ _)] at delivered
      have rest : (consume buffer (kHeaderBytes + payload.length)).flatten = frames later ++ tail := by
        rw [flatten_consume, framed]
        exact List.drop_left' (by rw [Message.new, List.length_append]; rfl)
      have nonempty : 0 < bufferSize buffer := by
        simp [bufferSize, framed, Message.new, Message.encodeHeader]
      rw [readLoop_of_consumed parse peer nonempty
        (show 0 < kHeaderBytes + payload.length by unfold kHeaderBytes; omega) invoked
        (stays _).1 (stays _).2]
      exact ih (fun message member => fits message (List.mem_cons_of_mem _ member)) rest delivered

end Run

/-- A ping: field 1 of `TMPing`, its type, set to `ePING`. -/
def pingPayload : List UInt8 := [0x08, 0x00]

/-- A peer that accepts every message, stays open, and records what the parser made of each. -/
def recordingPeer : Peer (List Nat) Nat :=
  ⟨⟨fun state _ _ _ => (.success, state), fun state _ m => m :: state, fun state _ _ => state,
    fun state _ => (.success, state)⟩, fun _ => true, fun _ => false⟩

/-- Two pings in one buffer are handed on in turn, the first parsed with the second frame after
it, and the loop then waits with nothing left. -/
theorem readLoop_frames_pings :
    ∃ rest : Buffers, rest.flatten = [] ∧
      readLoop (fun _ bytes => some bytes.length) recordingPeer
          [frames [(.mtPING, pingPayload), (.mtPING, pingPayload)]] [] =
        (.waiting, rest, [2, 10]) :=
  readLoop_frames (fun _ bytes => some bytes.length) recordingPeer (fun _ _ _ _ => rfl)
    (fun _ => ⟨rfl, rfl⟩) [(.mtPING, pingPayload), (.mtPING, pingPayload)] (by decide)
    (by unfold Incomplete; decide) (by rw [List.flatten_singleton, List.append_nil]) rfl

/-- A whole frame of type 0 is never consumed and holds up every frame after it; and the parser
of a ping is handed the next frame too when one follows it in the buffer. -/
theorem framing_stalls_and_overreads :
    bufferSize [Message.new pingPayload 0] = kHeaderBytes + Message.size [Message.new pingPayload 0] ∧
    (∀ {σ M : Type} (parse : Parser M) (peer : Peer σ M) (state : σ) (later : Buffers),
      (readLoop parse peer ([Message.new pingPayload 0] ++ later) state).2 =
        ([Message.new pingPayload 0] ++ later, state)) ∧
    (∀ {σ M : Type} (parse : Parser M) (handler : Handler σ M) (state : σ),
      invokeProtocolMessage parse [Message.new pingPayload 3] handler state =
          consumedOn 8 (handleParsed handler .mtPING 3 8 state (parse .mtPING pingPayload)) ∧
        invokeProtocolMessage parse [Message.new pingPayload 3 ++ Message.new pingPayload 3]
            handler state =
          consumedOn 8 (handleParsed handler .mtPING 3 8 state
            (parse .mtPING (pingPayload ++ Message.new pingPayload 3)))) := by
  refine ⟨by decide, ?_, ?_⟩
  · intro σ M parse peer state later
    have split : ([Message.new pingPayload 0] ++ later).flatten =
        Message.new pingPayload 0 ++ later.flatten := by
      rw [List.flatten_append, List.flatten_singleton]
    have zero : Message.type ([Message.new pingPayload 0] ++ later) = 0 := Message.type_new split
    rw [readLoop_of_none parse peer (by simp [bufferSize, Message.new, Message.encodeHeader])
      (invokeProtocolMessage_type_zero parse zero peer.toHandler state)]
  · intro σ M parse handler state
    have alone : [Message.new pingPayload 3].flatten =
        Message.new pingPayload MessageType.mtPING.toNat ++ [] := rfl
    have followed : [Message.new pingPayload 3 ++ Message.new pingPayload 3].flatten =
        Message.new pingPayload MessageType.mtPING.toNat ++ Message.new pingPayload 3 := rfl
    exact ⟨invokeProtocolMessage_new parse alone (by decide) rfl handler state,
      invokeProtocolMessage_new parse followed (by decide) rfl handler state⟩

end RadardFormal.Overlay
