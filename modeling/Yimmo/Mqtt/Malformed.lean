import Yimmo.Mqtt.Connect

/-!
# Malformed packets

`Packets` is what the protocol calls a sequence of packets, and `WellFormed` what may
become one.  `Ends` follows the bytes as the parser reads them, to where they end
or the parser does.

No length of a string is compared with anything, and a bad first byte of a packet is
refused without an error.  So the bytes are parsed safely where the strings that the
parser reads are inside of the message and of their destinations, and malformed ones
are refused where the parser gets to a remaining length of more than four digits or
to a protocol that it does not know (`rejects_iff`).
-/

namespace Yimmo.Mqtt.Malformed

open Yimmo.Core.Characters
open Yimmo.Core.StatusCode
open Yimmo.Lib.ByteMemory (forall_byte)
open Yimmo.Lib.Varint
open Yimmo.Mqtt.Session
open Yimmo.Mqtt.RemainingLength
open Yimmo.Mqtt.Feed
open Yimmo.Mqtt.Connect

variable
    {awaiting : Bool}
    {data : Bytes}
    {fed : Parsed MqttSession}

/-! ## The protocol -/

/-- The strings of a CONNECT packet fit their lengths and their destinations. -/
structure Sized (connect : ConnectPacket) : Prop where
  keepAlive : connect.keepAlive < 65536
  clientId : connect.clientId.length ≤ clientIdSize
  willTopic : connect.willTopic.length < 65536
  willMsg : connect.willMsg.length < 65536
  username : connect.username.length < 65536
  password : connect.password.length < 65536

/-- The quality of service of a PUBLISH packet. -/
def qos (c : UInt8) : UInt8 :=
  c >>> 1 &&& 0x03

/-- The first byte of a packet and its message, as the protocol has them. -/
inductive Message : UInt8 → Bytes → Prop where
  | connect
      {connect : ConnectPacket}
      (sized : Sized connect) :
      Message ymoMqttConnect (body connect)
  | publish
      {c : UInt8}
      {topic : Bytes}
      (type : c &&& ymoMqttFixedHdrTypeMask = ymoMqttPublish)
      (known : qos c ≠ 3)
      (sized : topic.length < 65536)
      (packetId : Bytes)
      (identified : packetId.length = if qos c = 0 then 0 else 2)
      (application : Bytes) :
      Message c (encodeString topic ++ (packetId ++ application))
  | acknowledge
      {c : UInt8}
      (type :
        c ∈
          [ymoMqttConnack, ymoMqttPuback, ymoMqttPubrec, ymoMqttPubrel ||| 2,
            ymoMqttPubcomp, ymoMqttUnsuback])
      (high low : UInt8) :
      Message c [high, low]
  | subscribe
      {filters : List (Bytes × UInt8)}
      (nonempty : filters ≠ [])
      (sized :
        ∀ filter ∈ filters, filter.1.length < 65536 ∧ filter.2.toNat < 3)
      (high low : UInt8) :
      Message (ymoMqttSubscribe ||| 2)
        (high :: low ::
          filters.flatMap fun filter => encodeString filter.1 ++ [filter.2])
  | suback
      {codes : Bytes}
      (nonempty : codes ≠ [])
      (high low : UInt8) :
      Message ymoMqttSuback (high :: low :: codes)
  | unsubscribe
      {filters : List Bytes}
      (nonempty : filters ≠ [])
      (sized : ∀ filter ∈ filters, filter.length < 65536)
      (high low : UInt8) :
      Message (ymoMqttUnsubscribe ||| 2)
        (high :: low :: filters.flatMap encodeString)
  | bare
      {c : UInt8}
      (type : c ∈ [ymoMqttPingreq, ymoMqttPingresp, ymoMqttDisconnect]) :
      Message c []

/-- Whether the session still waits for a CONNECT packet behind a packet. -/
def next (awaiting : Bool) (c : UInt8) : Bool :=
  awaiting && c != ymoMqttConnect

/-- A sequence of packets, with one CONNECT packet at most. -/
inductive Packets : Bool → Bytes → Prop where
  | nil
      (awaiting : Bool) :
      Packets awaiting []
  | cons
      {awaiting : Bool}
      {c : UInt8}
      {digits message rest : Bytes}
      (once : c = ymoMqttConnect → awaiting = true)
      (wellFormed : Message c message)
      (length : Field digits message.length)
      (few : digits.length ≤ 4)
      (later : Packets (next awaiting c) rest) :
      Packets awaiting (c :: (digits ++ (message ++ rest)))

/-- The bytes are a sequence of packets, the last of which may still arrive. -/
def WellFormed (awaiting : Bool) (data : Bytes) : Prop :=
  ∃ more, Packets awaiting (data ++ more)

/-! ## Strings as the parser reads them -/

/-- The length that the parser puts together from two bytes, the lower one with its
sign. -/
def signedLength (high low : UInt8) : Nat :=
  (high.toNat * 256 +
      if low.toNat < 128 then low.toNat else low.toNat + 65280) %
    65536

/-- A string behind its length is inside of the bytes, and fits its destination. -/
inductive StringInside
    (size : Nat) :
    Bytes → Bytes → Bytes → Prop where
  | intro
      {high low : UInt8}
      {text : Bytes}
      (length : text.length = signedLength high low)
      (fits : text.length ≤ size)
      (rest : Bytes) :
      StringInside size (high :: low :: (text ++ rest)) text rest

/-- A string is inside of the bytes, if its flag is set. -/
def FieldInside (flags flag : UInt8) (data rest : Bytes) : Prop :=
  if flags &&& flag ≠ 0 then ∃ text, StringInside 65535 data text rest
  else rest = data

/-- The variable header of a known protocol is inside of the message. -/
def HeaderInside (message : Bytes) (flags : UInt8) (payload : Bytes) : Prop :=
  ∃ name id high low,
    StringInside protoNameSize message name
        (id :: flags :: high :: low :: payload) ∧
      knownProto id name = true

/-- The strings of the payload are inside of it, one behind the other. -/
def PayloadInside (flags : UInt8) (payload : Bytes) : Prop :=
  ∃ clientId afterId afterTopic afterMsg afterName afterPassword,
    StringInside clientIdSize payload clientId afterId ∧
      FieldInside flags connectWillFlag afterId afterTopic ∧
      FieldInside flags connectWillFlag afterTopic afterMsg ∧
      FieldInside flags connectUsername afterMsg afterName ∧
      FieldInside flags connectPassword afterName afterPassword

/-- All that the parser reads of a CONNECT packet is inside of the message. -/
def Inside (message : Bytes) : Prop :=
  ∃ flags payload,
    HeaderInside message flags payload ∧ PayloadInside flags payload

/-- The name of the protocol is inside of the message, and not known. -/
def UnknownProtocol (message : Bytes) : Prop :=
  ∃ name id rest,
    StringInside protoNameSize message name (id :: rest) ∧
      knownProto id name = false

theorem toNat_signedLength (high low : UInt8) :
    ((charToUint16 high <<< 8) + charToUint16 low).toNat =
      signedLength high low :=
  toNat_consumed high low

theorem signedLength_lt (high low : UInt8) : signedLength high low < 65536 :=
  Nat.mod_lt _ (by decide)

/-- The parser consumes a length and the string behind it. -/
def consumeString (size : Nat) (src : Bytes) : Option (Bytes × Bytes) :=
  match parseConsumeUint16 src with
  | none => none
  | some (len, src) => parseConsumeStrval size src len

theorem consumeString_iff {size : Nat} {data text rest : Bytes} :
    consumeString size data = some (text, rest) ↔
      StringInside size data text rest := by
  constructor
  · intro consumed
    rcases data with _ | ⟨high, _ | ⟨low, data⟩⟩
    · cases consumed
    · cases consumed
    · unfold consumeString parseConsumeUint16 parseConsumeStrval at consumed
      dsimp only at consumed
      rw [toNat_signedLength] at consumed
      split at consumed
      · next inside =>
          cases consumed
          have length := List.length_take_of_le inside.2
          rw [← List.take_append_drop (signedLength high low) data]
          have taken :
              StringInside size
                (high :: low ::
                  (data.take (signedLength high low) ++
                    data.drop (signedLength high low)))
                (data.take (signedLength high low))
                (data.drop (signedLength high low)) :=
            .intro length (by rw [length]; exact inside.1) _
          simpa only [List.take_append_drop] using taken
      · cases consumed
  · rintro ⟨length, fits, rest⟩
    unfold consumeString parseConsumeUint16 parseConsumeStrval
    dsimp only
    rw [toNat_signedLength, ← length, if_pos, List.take_left, List.drop_left]
    refine ⟨fits, ?_⟩
    rw [List.length_append]
    exact Nat.le_add_right ..

/-- The parser gets behind a string just where it is inside. -/
theorem connectField_iff {flags flag : UInt8} (dst : MqttStr)
    {data rest : Bytes} :
    (∃ val, parseConnectField flags flag dst data = some (val, rest)) ↔
      FieldInside flags flag data rest := by
  unfold parseConnectField FieldInside
  split
  · rcases data with _ | ⟨high, _ | ⟨low, data⟩⟩
    · constructor
      · rintro ⟨_, consumed⟩
        cases consumed
      · rintro ⟨_, inside⟩
        cases inside
    · constructor
      · rintro ⟨_, consumed⟩
        cases consumed
      · rintro ⟨_, inside⟩
        cases inside
    · have below := signedLength_lt high low
      have same :
          parseConsumeStrval (signedLength high low) data
              ((charToUint16 high <<< 8) + charToUint16 low) =
            consumeString 65535 (high :: low :: data) := by
        unfold consumeString parseConsumeUint16 parseConsumeStrval
        dsimp only
        rw [toNat_signedLength]
        congr 1
        rw [eq_iff_iff]
        omega
      unfold parseStrdup parseConsumeUint16
      dsimp only
      rw [toNat_signedLength, same]
      constructor
      · rintro ⟨val, consumed⟩
        split at consumed
        · cases consumed
        next text left read =>
        cases consumed
        exact ⟨text, consumeString_iff.mp read⟩
      · rintro ⟨text, inside⟩
        rw [consumeString_iff.mpr inside]
        exact ⟨_, rfl⟩
  · constructor
    · rintro ⟨val, consumed⟩
      cases consumed
      rfl
    · rintro rfl
      exact ⟨dst, rfl⟩

/-! ## The message of a CONNECT packet -/

section

variable {session : MqttSession}

/-- The variable header of a CONNECT packet. -/
theorem parseVarhdr_connect
    (connect : session.msgIn.msgType = ymoMqttConnect) :
    mqttParseVarhdr session =
      match consumeString protoNameSize session.msgIn.varHdr with
      | none => .fault
      | some (protoName, payload) =>
          match parseConsumeUint8 payload with
          | none => .fault
          | some (protoId, payload) =>
              if knownProto protoId protoName then
                match parseConsumeUint8 payload with
                | none => .fault
                | some (connectFlags, payload) =>
                    match parseConsumeUint16 payload with
                    | none => .fault
                    | some (kaTimer, payload) =>
                        .okay
                          ({ session with
                              protoId := protoId
                              connectFlags := connectFlags
                              kaTimer := kaTimer
                              msgIn :=
                                { session.msgIn with
                                  payloadLen := payload.length } },
                            payload)
              else .failed (some .einval) := by
  unfold mqttParseVarhdr consumeString
  dsimp only
  rw [if_pos connect]
  cases parseConsumeUint16 session.msgIn.varHdr with
  | none => rfl
  | some length => rfl

/-- What the variable header leaves of the session. -/
structure HeaderRead
    (session later : MqttSession)
    (flags : UInt8) : Prop where
  msgType : later.msgIn.msgType = session.msgIn.msgType
  state : later.state = session.state
  connectFlags : later.connectFlags = flags

/-- The header of a known protocol is read where it is inside. -/
theorem parseVarhdr_of_inside
    (connect : session.msgIn.msgType = ymoMqttConnect)
    {flags : UInt8}
    {payload : Bytes}
    (inside : HeaderInside session.msgIn.varHdr flags payload) :
    ∃ later,
      mqttParseVarhdr session = .okay (later, payload) ∧
        HeaderRead session later flags := by
  rcases inside with ⟨name, id, high, low, string, known⟩
  rw [parseVarhdr_connect connect, consumeString_iff.mpr string]
  dsimp only [parseConsumeUint8, parseConsumeUint16]
  rw [if_pos known]
  exact ⟨_, rfl, rfl, rfl, rfl⟩

/-- Another protocol is refused. -/
theorem parseVarhdr_of_unknown
    (connect : session.msgIn.msgType = ymoMqttConnect)
    (unknown : UnknownProtocol session.msgIn.varHdr) :
    mqttParseVarhdr session = .failed (some .einval) := by
  rcases unknown with ⟨name, id, rest, string, other⟩
  rw [parseVarhdr_connect connect, consumeString_iff.mpr string]
  dsimp only [parseConsumeUint8]
  rw [if_neg (by rw [other]; decide)]

/-- The parser looks outside of the message where the header is neither. -/
theorem parseVarhdr_cases (connect : session.msgIn.msgType = ymoMqttConnect) :
    (∃ flags payload, HeaderInside session.msgIn.varHdr flags payload) ∨
      UnknownProtocol session.msgIn.varHdr ∨
        mqttParseVarhdr session = .fault := by
  rw [parseVarhdr_connect connect]
  cases consumed : consumeString protoNameSize session.msgIn.varHdr with
  | none => exact Or.inr (Or.inr rfl)
  | some result =>
      obtain ⟨name, payload⟩ := result
      have string := consumeString_iff.mp consumed
      cases payload with
      | nil => exact Or.inr (Or.inr rfl)
      | cons id payload =>
          dsimp only [parseConsumeUint8]
          cases known : knownProto id name with
          | false => exact Or.inr (Or.inl ⟨name, id, payload, string, known⟩)
          | true =>
              rw [if_pos rfl]
              rcases payload with
                _ | ⟨flags, _ | ⟨high, _ | ⟨low, payload⟩⟩⟩
              · exact Or.inr (Or.inr rfl)
              · exact Or.inr (Or.inr rfl)
              · exact Or.inr (Or.inr rfl)
              · exact
                  Or.inl ⟨flags, payload, name, id, high, low, string, known⟩

/-- The payload of a CONNECT packet. -/
theorem parsePayload_connect (connect : session.msgIn.msgType = ymoMqttConnect)
    (payload : Bytes) :
    mqttParsePayload session payload =
      match consumeString clientIdSize payload with
      | none => .fault
      | some (clientId, current) =>
          let flags := session.connectFlags
          match
            parseConnectField flags connectWillFlag session.willTopic
              current with
          | none => .fault
          | some (willTopic, current) =>
              match
                parseConnectField flags connectWillFlag session.willMsg
                  current with
              | none => .fault
              | some (willMsg, current) =>
                  match
                    parseConnectField flags connectUsername session.username
                      current with
                  | none => .fault
                  | some (username, current) =>
                      match
                        parseConnectField flags connectPassword
                          session.password current with
                      | none => .fault
                      | some (password, _) =>
                          .okay
                            { session with
                              clientId :=
                                clientId ++
                                  session.clientId.drop clientId.length
                              willTopic := willTopic
                              willMsg := willMsg
                              username := username
                              password := password } := by
  unfold mqttParsePayload consumeString
  rw [if_pos connect]
  cases parseConsumeUint16 payload with
  | none => rfl
  | some length => rfl

/-- The payload is read where its strings are inside. -/
theorem parsePayload_of_inside
    (connect : session.msgIn.msgType = ymoMqttConnect)
    {payload : Bytes}
    (inside : PayloadInside session.connectFlags payload) :
    ∃ later,
      mqttParsePayload session payload = .okay later ∧
        later.msgIn.msgType = session.msgIn.msgType ∧
        later.state = session.state := by
  rcases inside with
    ⟨clientId, afterId, afterTopic, afterMsg, afterName, afterPassword,
      string, topicInside, msgInside, nameInside, passwordInside⟩
  rcases (connectField_iff session.willTopic).mpr topicInside with
    ⟨topic, topicRead⟩
  rcases (connectField_iff session.willMsg).mpr msgInside with
    ⟨msg, msgRead⟩
  rcases (connectField_iff session.username).mpr nameInside with
    ⟨name, nameRead⟩
  rcases (connectField_iff session.password).mpr passwordInside with
    ⟨password, passwordRead⟩
  rw [parsePayload_connect connect, consumeString_iff.mpr string]
  dsimp only
  rw [topicRead]
  dsimp only
  rw [msgRead]
  dsimp only
  rw [nameRead]
  dsimp only
  rw [passwordRead]
  exact ⟨_, rfl, rfl, rfl⟩

/-- The parser looks outside of the payload where they are not. -/
theorem parsePayload_cases (connect : session.msgIn.msgType = ymoMqttConnect)
    (payload : Bytes) :
    PayloadInside session.connectFlags payload ∨
      mqttParsePayload session payload = .fault := by
  rw [parsePayload_connect connect]
  split
  · exact Or.inr rfl
  next clientId afterId idRead =>
  dsimp only
  split
  · exact Or.inr rfl
  next topic afterTopic topicRead =>
  split
  · exact Or.inr rfl
  next msg afterMsg msgRead =>
  split
  · exact Or.inr rfl
  next name afterName nameRead =>
  split
  · exact Or.inr rfl
  next password afterPassword passwordRead =>
  exact
    Or.inl
      ⟨clientId, afterId, afterTopic, afterMsg, afterName, afterPassword,
        consumeString_iff.mp idRead,
        (connectField_iff session.willTopic).mp ⟨topic, topicRead⟩,
        (connectField_iff session.willMsg).mp ⟨msg, msgRead⟩,
        (connectField_iff session.username).mp ⟨name, nameRead⟩,
        (connectField_iff session.password).mp ⟨password, passwordRead⟩⟩

end

/-! ## Packets as the parser reads them -/

/-- The state of a session, by whether it waits for a CONNECT packet. -/
def stateOf (awaiting : Bool) : MqttState :=
  if awaiting then .connecting else .connected

/-- The parser accepts a first byte. -/
def Accepted (awaiting : Bool) (c : UInt8) : Prop :=
  ctrlInval (stateOf awaiting) (c &&& ymoMqttFixedHdrTypeMask)
      (c &&& ymoMqttFixedHdrFlagMask) =
    false

instance (awaiting : Bool) (c : UInt8) : Decidable (Accepted awaiting c) :=
  inferInstanceAs (Decidable (_ = false))

/-- Where the bytes, or the parser, come to an end. -/
inductive End where
  /-- More bytes of a packet may follow. -/
  | waiting
  /-- Some digits of a remaining length are there, and not the last one. -/
  | inLength
  /-- A first byte is not accepted. -/
  | control
  /-- A remaining length has too many digits, or a protocol is not known. -/
  | refused
  /-- The parser looks outside of a message, or of a destination. -/
  | outside
deriving DecidableEq

/-- A packet whose message is parsed.  A message without bytes is when the next
byte is there. -/
structure Framed
    (awaiting : Bool)
    (c : UInt8)
    (digits message rest : Bytes) : Prop where
  accepted : Accepted awaiting c
  length : Field digits message.length
  few : digits.length ≤ 4
  arrived : message ++ rest ≠ []

/-- Where the bytes of a session come to an end. -/
inductive Ends : Bool → Bytes → End → Prop where
  | nothing
      (awaiting : Bool) :
      Ends awaiting [] .waiting
  | control
      {awaiting : Bool}
      {c : UInt8}
      (refused : ¬Accepted awaiting c)
      (rest : Bytes) :
      Ends awaiting (c :: rest) .control
  | first
      {awaiting : Bool}
      {c : UInt8}
      (accepted : Accepted awaiting c) :
      Ends awaiting [c] .waiting
  | inLength
      {awaiting : Bool}
      {c : UInt8}
      {digits : Bytes}
      (accepted : Accepted awaiting c)
      (continues : Continues digits)
      (nonempty : digits ≠ [])
      (few : digits.length < 4) :
      Ends awaiting (c :: digits) .inLength
  | overlong
      {awaiting : Bool}
      {c : UInt8}
      {digits : Bytes}
      (accepted : Accepted awaiting c)
      (continues : Continues digits)
      (four : digits.length = 4)
      (rest : Bytes) :
      Ends awaiting (c :: (digits ++ rest)) .refused
  | part
      {awaiting : Bool}
      {c : UInt8}
      {digits message : Bytes}
      {length : Nat}
      (accepted : Accepted awaiting c)
      (field : Field digits length)
      (few : digits.length ≤ 4)
      (part : message = [] ∨ message.length < length) :
      Ends awaiting (c :: (digits ++ message)) .waiting
  | unknown
      {awaiting : Bool}
      {digits message rest : Bytes}
      (framed : Framed awaiting ymoMqttConnect digits message rest)
      (unknown : UnknownProtocol message) :
      Ends awaiting (ymoMqttConnect :: (digits ++ (message ++ rest))) .refused
  | outside
      {awaiting : Bool}
      {digits message rest : Bytes}
      (framed : Framed awaiting ymoMqttConnect digits message rest)
      (known : ¬UnknownProtocol message)
      (outside : ¬Inside message) :
      Ends awaiting (ymoMqttConnect :: (digits ++ (message ++ rest))) .outside
  | later
      {awaiting : Bool}
      {c : UInt8}
      {digits message rest : Bytes}
      {kind : End}
      (framed : Framed awaiting c digits message rest)
      (inside : c = ymoMqttConnect → Inside message)
      (ends : Ends (next awaiting c) rest kind) :
      Ends awaiting (c :: (digits ++ (message ++ rest))) kind

/-- The bytes always come to an end. -/
theorem ends_exists (awaiting : Bool) (data : Bytes) :
    ∃ kind, Ends awaiting data kind := by
  induction count : data.length using Nat.strongRecOn
    generalizing awaiting data with
  | ind count ih =>
      subst count
      cases data with
      | nil => exact ⟨_, .nothing awaiting⟩
      | cons c tail =>
          by_cases accepted : Accepted awaiting c
          case neg => exact ⟨_, .control accepted tail⟩
          rcases field_cases 4 tail with
            ⟨digits, length, rest, split, field, few⟩ |
              ⟨digits, rest, split, continues, four⟩ | ⟨continues, few⟩
          · rw [split]
            by_cases part : rest = [] ∨ rest.length < length
            · exact ⟨_, .part accepted field few part⟩
            · obtain ⟨nonempty, long⟩ := not_or.mp part
              have whole : (rest.take length).length = length :=
                List.length_take_of_le (Nat.not_lt.mp long)
              have framed :
                  Framed awaiting c digits (rest.take length)
                    (rest.drop length) :=
                { accepted := accepted
                  length := by rw [whole]; exact field
                  few := few
                  arrived := by rw [List.take_append_drop]; exact nonempty }
              rw [← List.take_append_drop length rest]
              have less : (rest.drop length).length < (c :: tail).length := by
                rw [split, List.length_cons, List.length_append,
                  List.length_drop]
                omega
              rcases
                  ih _ less (next awaiting c) (rest.drop length) rfl with
                ⟨kind, ends⟩
              by_cases connect : c = ymoMqttConnect
              · subst connect
                by_cases unknown : UnknownProtocol (rest.take length)
                · exact ⟨_, .unknown framed unknown⟩
                · by_cases inside : Inside (rest.take length)
                  · exact ⟨_, .later framed (fun _ => inside) ends⟩
                  · exact ⟨_, .outside framed unknown inside⟩
              · exact ⟨_, .later framed (fun same => absurd same connect) ends⟩
          · rw [split]
            exact ⟨_, .overlong accepted continues four rest⟩
          · by_cases empty : tail = []
            · rw [empty]
              exact ⟨_, .first accepted⟩
            · exact ⟨_, .inLength accepted continues empty few⟩

/-! ## What the parser makes of them -/

/-- The session is where a packet begins. -/
structure AtStart (awaiting : Bool) (session : MqttSession) : Prop where
  parseState : session.msgIn.parseState = .fixedCtrlpack
  msgLen : session.msgIn.msgLen = 0
  state : session.state = stateOf awaiting

/-- The session holds the message of a packet. -/
structure Holds
    (awaiting : Bool)
    (c : UInt8)
    (message : Bytes)
    (session : MqttSession) : Prop where
  msgType : session.msgIn.msgType = c &&& ymoMqttFixedHdrTypeMask
  varHdr : session.msgIn.varHdr = message
  state : session.state = stateOf awaiting

set_option maxRecDepth 4000 in
/-- A CONNECT packet is accepted once, and without flags. -/
theorem connect_of_accepted :
    ∀ (awaiting : Bool) (c : UInt8),
      Accepted awaiting c →
        c &&& ymoMqttFixedHdrTypeMask = ymoMqttConnect →
          c = ymoMqttConnect := by
  intro awaiting
  cases awaiting with
  | false => exact forall_byte (by decide)
  | true => exact forall_byte (by decide)

set_option maxRecDepth 4000 in
theorem accepted_connecting :
    ∀ c : UInt8, Accepted false c → Accepted true c :=
  forall_byte (by decide)

section

variable
  {awaiting : Bool}
  {c : UInt8}
  {message : Bytes}
  {session : MqttSession}

/-- A message that is inside is acted on. -/
theorem finish_of_inside
    (holds : Holds awaiting ymoMqttConnect message session)
    (inside : Inside message) :
    ∃ later, finish session = .okay later ∧ AtStart false later := by
  rcases inside with ⟨flags, payload, headerInside, payloadInside⟩
  rw [← holds.varHdr] at headerInside
  rcases parseVarhdr_of_inside holds.msgType headerInside with
    ⟨read, header, headerRead⟩
  rw [← headerRead.connectFlags] at payloadInside
  rcases
      parsePayload_of_inside (headerRead.msgType.trans holds.msgType)
        payloadInside with
    ⟨last, payloadRead, msgType, _⟩
  have connect : last.msgIn.msgType = ymoMqttConnect :=
    msgType.trans (headerRead.msgType.trans holds.msgType)
  unfold finish parsed
  rw [header, bind_okay]
  dsimp only
  rw [payloadRead]
  refine ⟨_, rfl, ?_⟩
  unfold mqttComplete
  dsimp only
  rw [if_pos connect]
  exact ⟨rfl, rfl, rfl⟩

theorem finish_of_unknown
    (holds : Holds awaiting ymoMqttConnect message session)
    (unknown : UnknownProtocol message) :
    finish session = .failed (some .einval) := by
  rw [← holds.varHdr] at unknown
  unfold finish parsed
  rw [parseVarhdr_of_unknown holds.msgType unknown]
  rfl

theorem finish_of_outside
    (holds : Holds awaiting ymoMqttConnect message session)
    (known : ¬UnknownProtocol message)
    (outside : ¬Inside message) :
    finish session = .fault := by
  rw [← holds.varHdr] at known outside
  unfold finish parsed
  rcases parseVarhdr_cases holds.msgType with
    ⟨flags, payload, headerInside⟩ | unknown | fault
  · rcases parseVarhdr_of_inside holds.msgType headerInside with
      ⟨read, header, headerRead⟩
    rw [header, bind_okay]
    dsimp only
    rcases
        parsePayload_cases (headerRead.msgType.trans holds.msgType)
          payload with
      payloadInside | fault
    · rw [headerRead.connectFlags] at payloadInside
      exact absurd ⟨flags, payload, headerInside, payloadInside⟩ outside
    · rw [fault]
      rfl
  · exact absurd unknown known
  · rw [fault]
    rfl

/-- Of another message nothing is looked at. -/
theorem finish_of_other (holds : Holds awaiting c message session)
    (other : c &&& ymoMqttFixedHdrTypeMask ≠ ymoMqttConnect) :
    ∃ later, finish session = .okay later ∧ AtStart awaiting later := by
  rw [← holds.msgType] at other
  unfold finish parsed mqttParseVarhdr mqttParsePayload
  dsimp only
  rw [if_neg other, bind_okay]
  dsimp only
  rw [if_neg other]
  refine ⟨_, rfl, ?_⟩
  unfold mqttComplete
  dsimp only
  rw [if_neg other]
  exact ⟨rfl, rfl, holds.state⟩

theorem feedControl_of_not_accepted (atStart : AtStart awaiting session)
    (refused : ¬Accepted awaiting c) :
    feedControl session c = .failed none := by
  unfold Accepted at refused
  rw [← atStart.state] at refused
  unfold feedControl ymoMqttParseFixedCtrlpack
  dsimp only
  rw [if_pos ((Bool.not_eq_false _).mp refused)]
  rfl

/-- The session is at the remaining length of a packet. -/
structure AtLength
    (awaiting : Bool)
    (c : UInt8)
    (session : MqttSession) : Prop
    extends Begins session where
  msgType : session.msgIn.msgType = c &&& ymoMqttFixedHdrTypeMask
  sessionState : session.state = stateOf awaiting

theorem feedControl_of_accepted (atStart : AtStart awaiting session)
    (accepted : Accepted awaiting c) :
    ∃ started,
      feedControl session c = .okay started ∧ AtLength awaiting c started := by
  unfold Accepted at accepted
  rw [← atStart.state] at accepted
  unfold feedControl ymoMqttParseFixedCtrlpack
  dsimp only
  rw [if_neg (Bool.not_eq_true _ ▸ accepted)]
  exact
    ⟨_, rfl,
      { state := rfl
        multiplier := rfl
        length := atStart.msgLen
        msgType := rfl
        sessionState := atStart.state }⟩

/-- A packet that is accepted begins with a remaining length. -/
theorem feedAll_of_accepted (atStart : AtStart awaiting session)
    (accepted : Accepted awaiting c) :
    ∃ started,
      AtLength awaiting c started ∧
        ∀ tail, feedAll session (c :: tail) = feedAll started tail := by
  rcases feedControl_of_accepted atStart accepted with
    ⟨started, control, atLength⟩
  refine ⟨started, atLength, fun tail => ?_⟩
  rw [feedAll, feed_of_control atStart.parseState, control, bind_okay]

/-- The remaining length is behind the session. -/
structure AtMessage
    (awaiting : Bool)
    (c : UInt8)
    (length : Nat)
    (session : MqttSession) : Prop where
  parseState : session.msgIn.parseState = .varhdrPayload
  remain : session.msgIn.remain = length
  varHdr : session.msgIn.varHdr = []
  msgType : session.msgIn.msgType = c &&& ymoMqttFixedHdrTypeMask
  state : session.state = stateOf awaiting

theorem feedAll_of_field (atStart : AtStart awaiting session)
    (accepted : Accepted awaiting c)
    {digits : Bytes}
    {length : Nat}
    (field : Field digits length)
    (few : digits.length ≤ 4) :
    ∃ announced,
      AtMessage awaiting c length announced ∧
        ∀ tail,
          feedAll session (c :: (digits ++ tail)) =
            feedAll announced tail := by
  rcases feedAll_of_accepted atStart accepted with
    ⟨started, atLength, begins⟩
  have room : Room started.msgIn.remain digits.length := by
    rw [atLength.multiplier]
    exact room_one few
  refine
    ⟨_, ?_,
      fun tail =>
        (begins _).trans (feedAll_field field atLength.state room tail)⟩
  exact
    { parseState := rfl
      remain := by
        show started.msgIn.msgLen + length * started.msgIn.remain = length
        rw [atLength.length, atLength.multiplier, Nat.zero_add, Nat.mul_one]
      varHdr := rfl
      msgType := atLength.msgType
      state := atLength.sessionState }

/-- The message of a packet is finished. -/
theorem feedAll_of_framed {digits rest : Bytes}
    (atStart : AtStart awaiting session)
    (framed : Framed awaiting c digits message rest) :
    ∃ whole,
      Holds awaiting c message whole ∧
        feedAll session (c :: (digits ++ (message ++ rest))) =
          bind (finish whole) fun later => feedAll later rest := by
  rcases
      feedAll_of_field atStart framed.accepted framed.length framed.few with
    ⟨announced, atMessage, begins⟩
  rw [begins]
  by_cases empty : message = []
  · subst empty
    exact
      ⟨announced, ⟨atMessage.msgType, atMessage.varHdr, atMessage.state⟩,
        feedAll_empty atMessage.parseState atMessage.remain framed.arrived⟩
  · refine
      ⟨stored announced message, ⟨atMessage.msgType, ?_, atMessage.state⟩,
        feedAll_whole atMessage.parseState empty atMessage.remain.symm rest⟩
    show announced.msgIn.varHdr ++ message = message
    rw [atMessage.varHdr, List.nil_append]

end

/-- What the machine comes to where the bytes come to an end. -/
inductive Shows : End → Parsed MqttSession → Prop where
  | waiting
      {later : MqttSession}
      (notMid : ¬MidLength later) :
      Shows .waiting (.okay later)
  | inLength
      {later : MqttSession}
      (mid : MidLength later) :
      Shows .inLength (.okay later)
  | control : Shows .control (.failed none)
  | refused : Shows .refused (.failed (some .einval))
  | outside : Shows .outside .fault

theorem Shows.unique {kind other : End} (shows : Shows kind fed)
    (otherShows : Shows other fed) :
    kind = other := by
  cases shows with
  | waiting notMid =>
      cases otherShows with
      | waiting => rfl
      | inLength mid => exact absurd mid notMid
  | inLength mid =>
      cases otherShows with
      | waiting notMid => exact absurd mid notMid
      | inLength => rfl
  | control =>
      cases otherShows
      rfl
  | refused =>
      cases otherShows
      rfl
  | outside =>
      cases otherShows
      rfl

theorem not_midLength {session : MqttSession} {state : ParseState}
    (other : session.msgIn.parseState = state)
    (differs : state ≠ .fixedLength) :
    ¬MidLength session := by
  rintro ⟨length, _⟩
  exact differs (other.symm.trans length)

variable {kind : End}

/-- The machine follows the bytes to their end. -/
theorem shows_of_ends (ends : Ends awaiting data kind) {session : MqttSession}
    (atStart : AtStart awaiting session) :
    Shows kind (feedAll session data) := by
  induction ends generalizing session with
  | nothing awaiting =>
      exact .waiting (not_midLength atStart.parseState (by decide))
  | control refused rest =>
      rw [feedAll, feed_of_control atStart.parseState,
        feedControl_of_not_accepted atStart refused, bind_failed]
      exact .control
  | first accepted =>
      rcases feedAll_of_accepted atStart accepted with
        ⟨started, atLength, begins⟩
      rw [begins]
      exact .waiting fun mid => mid.2 atLength.multiplier
  | @inLength awaiting c digits accepted continues nonempty few =>
      rcases feedAll_of_accepted atStart accepted with
        ⟨started, atLength, begins⟩
      have room : Room started.msgIn.remain (digits.length + 1) := by
        rw [atLength.multiplier]
        exact room_one few
      rcases feedAll_continues continues atLength.state room [] with
        ⟨value, counts⟩
      rw [List.append_nil] at counts
      rw [begins, counts]
      refine .inLength ⟨atLength.state, ?_⟩
      have positive := List.length_pos_iff.mpr nonempty
      show started.msgIn.remain * 128 ^ digits.length ≠ 1
      rw [atLength.multiplier, Nat.one_mul]
      exact Nat.ne_of_gt (Nat.one_lt_pow (by omega) (by decide))
  | overlong accepted continues four rest =>
      rcases feedAll_of_accepted atStart accepted with
        ⟨started, atLength, begins⟩
      rw [begins,
        feedAll_overlong continues four atLength.state atLength.multiplier]
      exact .refused
  | @part awaiting c digits message length accepted field few part =>
      rcases feedAll_of_field atStart accepted field few with
        ⟨announced, atMessage, begins⟩
      rw [begins]
      by_cases empty : message = []
      · rw [empty]
        exact .waiting (not_midLength atMessage.parseState (by decide))
      · have less : message.length < announced.msgIn.remain := by
          rw [atMessage.remain]
          exact part.resolve_left empty
        have stores := feedAll_part atMessage.parseState less []
        rw [List.append_nil] at stores
        rw [stores]
        have state :
            (stored announced message).msgIn.parseState = .varhdrPayload :=
          atMessage.parseState
        exact .waiting (not_midLength state (by decide))
  | unknown framed unknown =>
      rcases feedAll_of_framed atStart framed with ⟨whole, holds, finishes⟩
      rw [finishes, finish_of_unknown holds unknown]
      exact .refused
  | outside framed known outside =>
      rcases feedAll_of_framed atStart framed with ⟨whole, holds, finishes⟩
      rw [finishes, finish_of_outside holds known outside]
      exact .outside
  | @later awaiting c digits message rest kind framed inside _
      ih =>
      rcases feedAll_of_framed atStart framed with ⟨whole, holds, finishes⟩
      rw [finishes]
      by_cases connect : c = ymoMqttConnect
      · subst connect
        have behind : next awaiting ymoMqttConnect = false := by
          rw [next, bne_self_eq_false, Bool.and_false]
        rw [behind] at ih
        rcases finish_of_inside holds (inside rfl) with
          ⟨later, done, laterStart⟩
        rw [done, bind_okay]
        exact ih laterStart
      · have behind : next awaiting c = awaiting := by
          rw [next, bne_iff_ne.mpr connect, Bool.and_true]
        rw [behind] at ih
        have other : c &&& ymoMqttFixedHdrTypeMask ≠ ymoMqttConnect :=
          fun same =>
            connect (connect_of_accepted awaiting c framed.accepted same)
        rcases finish_of_other holds other with ⟨later, done, laterStart⟩
        rw [done, bind_okay]
        exact ih laterStart

/-! ## Malformed strings -/

theorem atStart_create : AtStart true ymoMqttSessionCreate :=
  ⟨rfl, rfl, rfl⟩

/-- The machine comes to what the bytes come to, and to nothing else. -/
theorem shows_iff {kind : End} :
    Shows kind (feedAll ymoMqttSessionCreate data) ↔ Ends true data kind := by
  constructor
  · intro shows
    rcases ends_exists true data with ⟨other, ends⟩
    have same := shows.unique (shows_of_ends ends atStart_create)
    rw [same]
    exact ends
  · intro ends
    exact shows_of_ends ends atStart_create

theorem accepted_of_message {c : UInt8} {message : Bytes}
    (wellFormed : Message c message)
    (once : c = ymoMqttConnect → awaiting = true) :
    Accepted awaiting c := by
  have connected {c : UInt8} (accepted : Accepted false c) :
      Accepted awaiting c := by
    cases awaiting with
    | false => exact accepted
    | true => exact accepted_connecting c accepted
  cases wellFormed with
  | connect sized =>
      rw [once rfl]
      decide
  | publish type =>
      unfold Accepted
      rw [type]
      rfl
  | acknowledge type =>
      clear once
      apply connected
      revert c
      decide
  | subscribe => exact connected (by decide)
  | suback => exact connected (by decide)
  | unsubscribe => exact connected (by decide)
  | bare type =>
      clear once
      apply connected
      revert c
      decide

/-- The protocol of a CONNECT packet is known. -/
theorem not_unknownProtocol (connect : ConnectPacket) :
    ¬UnknownProtocol (body connect) := by
  rintro ⟨name, id, rest, string, unknown⟩
  have short := length_name connect.level
  have small : LowByteSmall connect.level.name.length := by
    unfold LowByteSmall
    omega
  have split :
      body connect =
        encodeString connect.level.name ++
          (connect.level.id :: connect.flags ::
            (encodeUint16 connect.keepAlive ++ payload connect)) := by
    rw [body, varHdr, List.append_assoc, List.append_assoc]
    rfl
  rcases
      consume_encodeString small short.2 (by decide)
        (connect.level.id :: connect.flags ::
          (encodeUint16 connect.keepAlive ++ payload connect)) with
    ⟨between, length, copied⟩
  have consumed := consumeString_iff.mpr string
  rw [split, consumeString, length] at consumed
  dsimp only at consumed
  rw [copied] at consumed
  cases consumed
  rw [knownProto_level] at unknown
  cases unknown

/-- Well-formed bytes that begin with a packet are that packet of the protocol, and
well-formed behind it. -/
theorem wellFormed_of_framed {c : UInt8} {digits message rest : Bytes}
    (framed : Framed awaiting c digits message rest)
    (wellFormed : WellFormed awaiting (c :: (digits ++ (message ++ rest)))) :
    Message c message ∧ WellFormed (next awaiting c) rest := by
  rcases wellFormed with ⟨more, packets⟩
  generalize whole : c :: (digits ++ (message ++ rest)) ++ more = data
    at packets
  cases packets with
  | nil => cases whole
  | @cons _ first ownDigits own later once ownMessage length few packets =>
      rw [List.cons_append, List.append_assoc, List.append_assoc] at whole
      rcases List.cons.inj whole with ⟨rfl, tail⟩
      rcases framed.length.unique length tail with
        ⟨rfl, sameLength, behind⟩
      rcases List.append_inj behind sameLength with ⟨rfl, rfl⟩
      exact ⟨ownMessage, more, packets⟩

/-- The parser refuses no well-formed bytes. -/
theorem not_refused_of_wellFormed (ends : Ends awaiting data kind)
    (wellFormed : WellFormed awaiting data) :
    kind ≠ .control ∧ kind ≠ .refused := by
  induction ends with
  | @control awaiting c refused rest =>
      rcases wellFormed with ⟨more, packets⟩
      generalize whole : c :: rest ++ more = data at packets
      cases packets with
      | nil => cases whole
      | cons once message =>
          rcases List.cons.inj whole with ⟨rfl, _⟩
          exact absurd (accepted_of_message message once) refused
  | @overlong awaiting c digits _ continues four rest =>
      rcases wellFormed with ⟨more, packets⟩
      generalize whole : c :: (digits ++ rest) ++ more = data at packets
      cases packets with
      | nil => cases whole
      | @cons _ _ ownDigits own later once message length few packets =>
          rw [List.cons_append, List.append_assoc] at whole
          have inside : ownDigits <+: digits := by
            apply
              List.prefix_of_prefix_length_le
                (List.prefix_append ownDigits (own ++ later))
            · rw [← (List.cons.inj whole).2]
              exact List.prefix_append digits _
            · omega
          rcases inside with ⟨others, split⟩
          rw [← split] at continues
          exact absurd continues length.not_continues
  | unknown framed unknown =>
      have message := (wellFormed_of_framed framed wellFormed).1
      cases message with
      | connect sized => exact absurd unknown (not_unknownProtocol _)
      | publish type => exact absurd type (by decide)
      | acknowledge type => exact absurd type (by decide)
      | bare type => exact absurd type (by decide)
  | later framed _ _ ih => exact ih (wellFormed_of_framed framed wellFormed).2
  | nothing => exact ⟨End.noConfusion, End.noConfusion⟩
  | first => exact ⟨End.noConfusion, End.noConfusion⟩
  | inLength => exact ⟨End.noConfusion, End.noConfusion⟩
  | part => exact ⟨End.noConfusion, End.noConfusion⟩
  | outside => exact ⟨End.noConfusion, End.noConfusion⟩

/-- `-1` was returned, with an error for which the connection is closed.  `errno`
is 0 in front of a read. -/
def Closes : ReadResult → Prop
  | .failed (some errno) => ymoIsBlocked (.err errno) = false
  | _ => False

/-- The reads are parsed safely, and malformed ones make the connection close. -/
structure Rejects (reads : List Bytes) : Prop where
  safe : readCbs ymoMqttSessionCreate reads ≠ .fault
  closes :
    ¬WellFormed true reads.flatten →
      Closes (readCbs ymoMqttSessionCreate reads)

/-- No read ends inside a remaining length. -/
def LengthsTogether (reads : List Bytes) : Prop :=
  ∀ front, front <+: reads → ¬Ends true front.flatten .inLength

theorem uncut_iff_lengthsTogether (reads : List Bytes) :
    Uncut ymoMqttSessionCreate reads ↔ LengthsTogether reads := by
  constructor
  · intro uncut front isPrefix ends
    have shows := shows_iff.mpr ends
    cases fed : feedAll ymoMqttSessionCreate front.flatten with
    | okay later =>
        rw [fed] at shows
        cases shows with
        | inLength mid => exact uncut front isPrefix later fed mid
    | failed errno =>
        rw [fed] at shows
        cases shows
    | fault =>
        rw [fed] at shows
        cases shows
  · intro together front isPrefix later fed mid
    apply together front isPrefix
    rw [← shows_iff, fed]
    exact .inLength mid

theorem resultOf_eq_fault_iff (shows : Shows kind fed) :
    resultOf fed = .fault ↔ kind = .outside := by
  cases shows with
  | outside => exact iff_of_true rfl rfl
  | waiting => exact iff_of_false ReadResult.noConfusion End.noConfusion
  | inLength => exact iff_of_false ReadResult.noConfusion End.noConfusion
  | control => exact iff_of_false ReadResult.noConfusion End.noConfusion
  | refused => exact iff_of_false ReadResult.noConfusion End.noConfusion

theorem closes_resultOf_iff (shows : Shows kind fed) :
    Closes (resultOf fed) ↔ kind = .refused := by
  cases shows with
  | refused => exact iff_of_true rfl rfl
  | waiting => exact iff_of_false id End.noConfusion
  | inLength => exact iff_of_false id End.noConfusion
  | control => exact iff_of_false id End.noConfusion
  | outside => exact iff_of_false id End.noConfusion

/-- The reads are parsed safely, and malformed ones make the connection close, just
where no read ends inside a remaining length, no CONNECT packet has a string
outside, and the parser gets to the end of well-formed bytes or to what it refuses. -/
theorem rejects_iff {reads : List Bytes}
    (nonempty : ∀ received ∈ reads, received ≠ []) :
    Rejects reads ↔
      LengthsTogether reads ∧
        ¬Ends true reads.flatten .outside ∧
        (WellFormed true reads.flatten ∨
          Ends true reads.flatten .refused) := by
  have spec := readCbs_spec atRest_create nonempty
  rw [uncut_iff_lengthsTogether] at spec
  by_cases together : LengthsTogether reads
  case neg =>
    exact
      iff_of_false (fun rejects => rejects.safe (spec.2 together))
        fun condition => together condition.1
  have result := spec.1 together
  rcases ends_exists true reads.flatten with ⟨kind, ends⟩
  have shows := shows_iff.mpr ends
  have comesTo (other : End) :
      Ends true reads.flatten other ↔ kind = other := by
    constructor
    · intro otherEnds
      exact shows.unique (shows_iff.mpr otherEnds)
    · rintro rfl
      exact ends
  rw [comesTo, comesTo]
  constructor
  · rintro ⟨safe, closes⟩
    rw [result] at safe closes
    refine ⟨together, ?_, ?_⟩
    · exact fun outside => safe ((resultOf_eq_fault_iff shows).mpr outside)
    · by_cases wellFormed : WellFormed true reads.flatten
      · exact Or.inl wellFormed
      · exact Or.inr ((closes_resultOf_iff shows).mp (closes wellFormed))
  · rintro ⟨_, inside, condition⟩
    constructor
    · rw [result]
      exact fun fault => inside ((resultOf_eq_fault_iff shows).mp fault)
    · intro malformed
      rw [result]
      exact (closes_resultOf_iff shows).mpr (condition.resolve_left malformed)

theorem not_inLength (shows : Shows kind (feedAll ymoMqttSessionCreate data))
    (other : kind ≠ .inLength) :
    ¬Ends true data .inLength :=
  fun ends => other (shows.unique (shows_iff.mpr ends))

/-- A remaining length of more than four digits, behind a first byte on its own. -/
theorem rejects_overlong :
    Rejects [[0x10], [0xff, 0xff, 0xff, 0xff, 0x01]] := by
  have continues : Continues [0xff, 0xff, 0xff, 0xff] := by
    unfold Continues
    decide
  have overlong : Ends true [0x10, 0xff, 0xff, 0xff, 0xff, 0x01] .refused :=
    .overlong (by decide) continues rfl [0x01]
  refine (rejects_iff (by decide)).mpr ⟨?_, ?_, Or.inr overlong⟩
  · intro front isPrefix
    rcases front with _ | ⟨first, _ | ⟨second, front⟩⟩
    · exact
        not_inLength (shows_of_ends (.nothing true) atStart_create) (by decide)
    · rcases List.cons_prefix_cons.mp isPrefix with ⟨rfl, _⟩
      exact
        not_inLength (shows_of_ends (.first (by decide)) atStart_create)
          (by decide)
    · rcases List.cons_prefix_cons.mp isPrefix with ⟨rfl, later⟩
      rcases List.cons_prefix_cons.mp later with ⟨rfl, last⟩
      rw [List.prefix_nil.mp last]
      exact not_inLength (shows_iff.mpr overlong) (by decide)
  · intro outside
    have same := (shows_iff.mpr outside).unique (shows_iff.mpr overlong)
    cases same

/-- The name of the protocol is said to have 13 bytes, of which `proto_name` has room
for 12; and a CONNECT packet with a flag is refused without an error. -/
theorem protoName_overrun :
    ¬Rejects
        [[0x10, 0x0f, 0x00, 0x0d] ++ bytes "MQTTMQTTMQTTM"] ∧
      ¬Rejects [[0x11, 0x00]] := by
  constructor
  · intro rejects
    exact rejects.safe rfl
  · intro rejects
    have malformed : ¬WellFormed true [0x11, 0x00] := by
      intro wellFormed
      have ends : Ends true [0x11, 0x00] .control :=
        .control (by decide) [0x00]
      exact (not_refused_of_wellFormed ends wellFormed).1 rfl
    exact rejects.closes malformed

end Yimmo.Mqtt.Malformed
