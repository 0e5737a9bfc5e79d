import Yimmo.Mqtt.Feed

/-!
# CONNECT packets

`Connect` is what a CONNECT packet says, and `packet` its bytes.  The parser finds
the fields one behind the other, each by the length of the one in front of it.

A length is put together from two values of type `char`, of which the lower one is
added with its sign.  So a length or a timer is read as it is written just where
its lower byte is below 128 (`consume_encodeUint16`), and a packet is decoded where
that is so of all of them (`connect_decoded_iff`).
-/

namespace Yimmo.Mqtt.Connect

open Yimmo.Core.Characters
open Yimmo.Core.StatusCode
open Yimmo.Lib.ByteMemory (forall_byte)
open Yimmo.Lib.Varint
open Yimmo.Mqtt.Session
open Yimmo.Mqtt.RemainingLength
open Yimmo.Mqtt.Feed

variable {text : Bytes}

/-! ## Packets -/

/-- The versions of the protocol that are known. -/
inductive Level where
  | mqtt
  | mqisdp
deriving DecidableEq

def Level.name : Level → Bytes
  | mqtt => bytes "MQTT"
  | mqisdp => bytes "MQIsdp"

def Level.id : Level → UInt8
  | mqtt => 4
  | mqisdp => 3

/-- What a CONNECT packet says; a string is there if its flag is set. -/
structure ConnectPacket where
  level : Level
  flags : UInt8
  keepAlive : Nat
  clientId : Bytes
  willTopic : Bytes
  willMsg : Bytes
  username : Bytes
  password : Bytes

/-- Two bytes, the higher one first. -/
def encodeUint16 (n : Nat) : Bytes :=
  [UInt8.ofNat (n / 256), UInt8.ofNat (n % 256)]

/-- A string behind its length. -/
def encodeString (text : Bytes) : Bytes :=
  encodeUint16 text.length ++ text

/-- A string that is there if its flag is set. -/
def encodeField (flags flag : UInt8) (text : Bytes) : Bytes :=
  if flags &&& flag ≠ 0 then encodeString text else []

/-- The variable header. -/
def varHdr (connect : ConnectPacket) : Bytes :=
  encodeString connect.level.name ++
    ([connect.level.id, connect.flags] ++ encodeUint16 connect.keepAlive)

/-- The payload. -/
def payload (connect : ConnectPacket) : Bytes :=
  encodeString connect.clientId ++
    (encodeField connect.flags connectWillFlag connect.willTopic ++
      (encodeField connect.flags connectWillFlag connect.willMsg ++
        (encodeField connect.flags connectUsername connect.username ++
          encodeField connect.flags connectPassword connect.password)))

/-- The message of the packet. -/
def body (connect : ConnectPacket) : Bytes :=
  varHdr connect ++ payload connect

/-- The packet. -/
def packet (connect : ConnectPacket) : Bytes :=
  ymoMqttConnect :: (encode (body connect).length ++ body connect)

/-- The strings and the timer have the sizes that the protocol allows. -/
structure WellFormed (connect : ConnectPacket) : Prop where
  keepAlive : connect.keepAlive < 65536
  clientId : connect.clientId.length ≤ 23
  willTopic : connect.willTopic.length < 65536
  willMsg : connect.willMsg.length < 65536
  username : connect.username.length < 65536
  password : connect.password.length < 65536

/-- The string of a session for a string of the packet. -/
def fieldOf (flags flag : UInt8) (text : Bytes) : MqttStr :=
  if flags &&& flag ≠ 0 then
    { val := some text, len := UInt16.ofNat text.length }
  else .null

/-- The fields of the session are those of the packet. -/
structure Decoded
    (connect : ConnectPacket)
    (session : MqttSession) : Prop where
  protoId : session.protoId = connect.level.id
  connectFlags : session.connectFlags = connect.flags
  kaTimer : session.kaTimer = UInt16.ofNat connect.keepAlive
  clientId :
    session.clientId =
      connect.clientId ++
        List.replicate (clientIdSize - connect.clientId.length) 0
  willTopic :
    session.willTopic = fieldOf connect.flags connectWillFlag connect.willTopic
  willMsg :
    session.willMsg = fieldOf connect.flags connectWillFlag connect.willMsg
  username :
    session.username = fieldOf connect.flags connectUsername connect.username
  password :
    session.password = fieldOf connect.flags connectPassword connect.password

/-! ## Numbers -/

/-- The lower byte of the number has its highest bit clear. -/
def LowByteSmall (n : Nat) : Prop :=
  n % 256 < 128

set_option maxRecDepth 4000 in
theorem toNat_highByte :
    ∀ c : UInt8, (charToUint16 c <<< 8).toNat = c.toNat * 256 :=
  forall_byte (by decide)

set_option maxRecDepth 4000 in
theorem toNat_lowByte :
    ∀ c : UInt8,
      (charToUint16 c).toNat =
        if c.toNat < 128 then c.toNat else c.toNat + 65280 :=
  forall_byte (by decide)

/-- The number that the parser puts together. -/
theorem toNat_consumed (high low : UInt8) :
    ((charToUint16 high <<< 8) + charToUint16 low).toNat =
      (high.toNat * 256 +
          if low.toNat < 128 then low.toNat else low.toNat + 65280) %
        65536 := by
  rw [UInt16.toNat_add, toNat_highByte, toNat_lowByte]

/-- A number is read as it is written where its lower byte is small, and nowhere
else; what is behind it is left. -/
theorem consume_encodeUint16 {n : Nat} (small : n < 65536) (rest : Bytes) :
    ∃ number,
      parseConsumeUint16 (encodeUint16 n ++ rest) = some (number, rest) ∧
        (number = UInt16.ofNat n ↔ LowByteSmall n) := by
  refine ⟨_, rfl, ?_⟩
  have high : (UInt8.ofNat (n / 256)).toNat = n / 256 := by
    rw [UInt8.toNat_ofNat']
    omega
  have low : (UInt8.ofNat (n % 256)).toNat = n % 256 := by
    rw [UInt8.toNat_ofNat']
    omega
  rw [← UInt16.toNat_inj, toNat_consumed, high, low, UInt16.toNat_ofNat',
    LowByteSmall]
  split
  · omega
  · omega

/-! ## Strings -/

theorem toNat_length (small : text.length < 65536) :
    (UInt16.ofNat text.length).toNat = text.length := by
  rw [UInt16.toNat_ofNat', Nat.mod_eq_of_lt small]

/-- A string that fits the destination is copied. -/
theorem consumeStrval_append {size : Nat} (small : text.length < 65536)
    (fits : text.length ≤ size)
    (rest : Bytes) :
    parseConsumeStrval size (text ++ rest) (UInt16.ofNat text.length) =
      some (text, rest) := by
  have inside : text.length ≤ (text ++ rest).length := by
    rw [List.length_append]
    exact Nat.le_add_right ..
  rw [parseConsumeStrval, toNat_length small, if_pos ⟨fits, inside⟩,
    List.take_left, List.drop_left]

/-- A string behind its length is consumed. -/
theorem consume_encodeString {size : Nat} (small : LowByteSmall text.length)
    (fits : text.length ≤ size)
    (below : size < 65536)
    (rest : Bytes) :
    ∃ between,
      parseConsumeUint16 (encodeString text ++ rest) =
          some (UInt16.ofNat text.length, between) ∧
        parseConsumeStrval size between (UInt16.ofNat text.length) =
          some (text, rest) := by
  have short : text.length < 65536 := by omega
  rcases consume_encodeUint16 short (text ++ rest) with
    ⟨number, consumed, same⟩
  rw [same.mpr small] at consumed
  refine ⟨text ++ rest, ?_, consumeStrval_append short fits rest⟩
  rw [encodeString, List.append_assoc, consumed]

section

variable
  {flags flag : UInt8}
  {text : Bytes}

/-- A field that is there is read as it is written. -/
theorem connectField_read (short : text.length < 65536)
    (readable : flags &&& flag ≠ 0 → LowByteSmall text.length)
    (rest : Bytes) :
    parseConnectField flags flag .null
        (encodeField flags flag text ++ rest) =
      some (fieldOf flags flag text, rest) := by
  unfold parseConnectField encodeField fieldOf
  by_cases present : flags &&& flag ≠ 0
  · rcases
        consume_encodeString (readable present) (Nat.le_refl _) short rest with
      ⟨between, length, copied⟩
    rw [if_pos present, if_pos present, if_pos present, parseStrdup, length]
    dsimp only
    rw [toNat_length short, copied]
  · rw [if_neg present, if_neg present, if_neg present, List.nil_append]

/-- A field that is read as it is written has a length that can be read. -/
theorem readable_of_connectField
    (short : text.length < 65536)
    {rest left : Bytes}
    (read :
      parseConnectField flags flag .null
          (encodeField flags flag text ++ rest) =
        some (fieldOf flags flag text, left))
    (present : flags &&& flag ≠ 0) :
    LowByteSmall text.length := by
  rcases consume_encodeUint16 short (text ++ rest) with
    ⟨number, consumed, same⟩
  unfold parseConnectField encodeField fieldOf at read
  rw [if_pos present, if_pos present, if_pos present, parseStrdup,
    encodeString, List.append_assoc, consumed] at read
  dsimp only at read
  cases copied : parseConsumeStrval number.toNat (text ++ rest) number with
  | none =>
      rw [copied] at read
      cases read
  | some result =>
      rw [copied] at read
      have fields := congrArg Prod.fst (Option.some.inj read)
      exact same.mp (congrArg MqttStr.len fields)

end

/-! ## The message -/

/-- The lengths of the strings that are there are read as they are written. -/
structure StringsReadable (connect : ConnectPacket) : Prop where
  willTopic :
    connect.flags &&& connectWillFlag ≠ 0 →
      LowByteSmall connect.willTopic.length
  willMsg :
    connect.flags &&& connectWillFlag ≠ 0 → LowByteSmall connect.willMsg.length
  username :
    connect.flags &&& connectUsername ≠ 0 →
      LowByteSmall connect.username.length
  password :
    connect.flags &&& connectPassword ≠ 0 →
      LowByteSmall connect.password.length

/-- The numbers of the packet are read as they are written. -/
structure Readable (connect : ConnectPacket) : Prop
    extends StringsReadable connect where
  keepAlive : LowByteSmall connect.keepAlive

/-- The session has not had a CONNECT packet, and holds the message of one. -/
structure Holding
    (connect : ConnectPacket)
    (session : MqttSession) : Prop where
  msgType : session.msgIn.msgType = ymoMqttConnect
  varHdr : session.msgIn.varHdr = body connect
  clientId : session.clientId = List.replicate clientIdSize 0
  willTopic : session.willTopic = .null
  willMsg : session.willMsg = .null
  username : session.username = .null
  password : session.password = .null

theorem length_name (level : Level) :
    level.name.length < 128 ∧ level.name.length ≤ protoNameSize := by
  cases level with
  | mqtt => decide
  | mqisdp => decide

theorem knownProto_level (level : Level) :
    knownProto level.id level.name = true := by
  cases level with
  | mqtt => rfl
  | mqisdp => rfl

variable {connect : ConnectPacket}

/-- The variable header is read, with the timer as it is put together. -/
theorem parseVarhdr_read (wellFormed : WellFormed connect)
    {session : MqttSession}
    (holding : Holding connect session) :
    ∃ kaTimer,
      (kaTimer = UInt16.ofNat connect.keepAlive ↔
          LowByteSmall connect.keepAlive) ∧
        mqttParseVarhdr session =
          .okay
            ({ session with
                protoId := connect.level.id
                connectFlags := connect.flags
                kaTimer := kaTimer
                msgIn :=
                  { session.msgIn with
                    payloadLen := (payload connect).length } },
              payload connect) := by
  have short := length_name connect.level
  have small : LowByteSmall connect.level.name.length := by
    unfold LowByteSmall
    omega
  rcases
      consume_encodeString small short.2 (by decide)
        ([connect.level.id, connect.flags] ++
            encodeUint16 connect.keepAlive ++ payload connect) with
    ⟨between, length, copied⟩
  rcases consume_encodeUint16 wellFormed.keepAlive (payload connect) with
    ⟨kaTimer, consumed, same⟩
  have split :
      body connect =
        encodeString connect.level.name ++
          ([connect.level.id, connect.flags] ++
              encodeUint16 connect.keepAlive ++ payload connect) := by
    rw [body, varHdr, List.append_assoc]
  refine ⟨kaTimer, same, ?_⟩
  unfold mqttParseVarhdr
  dsimp only
  rw [if_pos holding.msgType, holding.varHdr, split, length]
  dsimp only
  rw [copied]
  dsimp only [List.cons_append, List.nil_append, parseConsumeUint8]
  rw [if_pos (knownProto_level connect.level), consumed]

/-- The session with the fields of the payload. -/
def withPayload (connect : ConnectPacket) (session : MqttSession) :
    MqttSession :=
  { session with
    clientId :=
      connect.clientId ++ session.clientId.drop connect.clientId.length
    willTopic := fieldOf connect.flags connectWillFlag connect.willTopic
    willMsg := fieldOf connect.flags connectWillFlag connect.willMsg
    username := fieldOf connect.flags connectUsername connect.username
    password := fieldOf connect.flags connectPassword connect.password }

/-- The fields of the payload are those of the packet. -/
def PayloadDecoded (connect : ConnectPacket) (session : MqttSession) : Prop :=
  session.willTopic =
      fieldOf connect.flags connectWillFlag connect.willTopic ∧
    session.willMsg =
        fieldOf connect.flags connectWillFlag connect.willMsg ∧
      session.username =
          fieldOf connect.flags connectUsername connect.username ∧
        session.password =
          fieldOf connect.flags connectPassword connect.password

/-- The session is at the payload of the packet. -/
structure AtPayload
    (connect : ConnectPacket)
    (session : MqttSession) : Prop where
  msgType : session.msgIn.msgType = ymoMqttConnect
  connectFlags : session.connectFlags = connect.flags
  willTopic : session.willTopic = .null
  willMsg : session.willMsg = .null
  username : session.username = .null
  password : session.password = .null

section

variable
  {connect : ConnectPacket}
  {session : MqttSession}

/-- The client id is copied, and the strings are behind it. -/
theorem parsePayload_clientId (wellFormed : WellFormed connect)
    (atPayload : AtPayload connect session) :
    mqttParsePayload session (payload connect) =
      (let flags := connect.flags
      let strings :=
        encodeField flags connectWillFlag connect.willTopic ++
          (encodeField flags connectWillFlag connect.willMsg ++
            (encodeField flags connectUsername connect.username ++
              encodeField flags connectPassword connect.password))
      match parseConnectField flags connectWillFlag .null strings with
      | none => .fault
      | some (willTopic, current) =>
          match parseConnectField flags connectWillFlag .null current with
          | none => .fault
          | some (willMsg, current) =>
              match parseConnectField flags connectUsername .null current with
              | none => .fault
              | some (username, current) =>
                  match
                    parseConnectField flags connectPassword .null current with
                  | none => .fault
                  | some (password, _) =>
                      .okay
                        { session with
                          clientId :=
                            connect.clientId ++
                              session.clientId.drop connect.clientId.length
                          willTopic := willTopic
                          willMsg := willMsg
                          username := username
                          password := password }) := by
  have few := wellFormed.clientId
  have small : LowByteSmall connect.clientId.length := by
    unfold LowByteSmall
    omega
  have fits : connect.clientId.length ≤ clientIdSize :=
    Nat.le_trans few (by decide)
  rcases consume_encodeString small fits (by decide)
      (encodeField connect.flags connectWillFlag connect.willTopic ++
        (encodeField connect.flags connectWillFlag connect.willMsg ++
          (encodeField connect.flags connectUsername connect.username ++
            encodeField connect.flags connectPassword connect.password))) with
    ⟨between, length, copied⟩
  unfold mqttParsePayload
  rw [if_pos atPayload.msgType, payload, length]
  dsimp only
  rewrite [copied, atPayload.connectFlags, atPayload.willTopic,
    atPayload.willMsg, atPayload.username, atPayload.password]
  rfl

/-- The strings are read where their lengths are. -/
theorem parsePayload_read (wellFormed : WellFormed connect)
    (strings : StringsReadable connect)
    (atPayload : AtPayload connect session) :
    mqttParsePayload session (payload connect) =
      .okay (withPayload connect session) := by
  have last := connectField_read wellFormed.password strings.password []
  rw [List.append_nil] at last
  rw [parsePayload_clientId wellFormed atPayload]
  dsimp only
  rw [connectField_read wellFormed.willTopic strings.willTopic]
  dsimp only
  rw [connectField_read wellFormed.willMsg strings.willMsg]
  dsimp only
  rw [connectField_read wellFormed.username strings.username]
  dsimp only
  rw [last]
  rfl

/-- Strings that are read as they are written have lengths that are: each one is
found behind the one in front of it. -/
theorem stringsReadable_of_payload (wellFormed : WellFormed connect)
    (atPayload : AtPayload connect session)
    {later : MqttSession}
    (read : mqttParsePayload session (payload connect) = .okay later)
    (decoded : PayloadDecoded connect later) :
    StringsReadable connect := by
  rw [parsePayload_clientId wellFormed atPayload] at read
  dsimp only at read
  split at read
  · cases read
  next willTopic afterTopic topicRead =>
  split at read
  · cases read
  next willMsg afterMsg msgRead =>
  split at read
  · cases read
  next username afterName nameRead =>
  split at read
  · cases read
  next password afterPassword passwordRead =>
  cases read
  rcases decoded with ⟨topicSame, msgSame, nameSame, passwordSame⟩
  dsimp only at topicSame msgSame nameSame passwordSame
  subst topicSame msgSame nameSame passwordSame
  have topicReadable := readable_of_connectField wellFormed.willTopic topicRead
  rw [connectField_read wellFormed.willTopic topicReadable] at topicRead
  cases topicRead
  have msgReadable := readable_of_connectField wellFormed.willMsg msgRead
  rw [connectField_read wellFormed.willMsg msgReadable] at msgRead
  cases msgRead
  have nameReadable := readable_of_connectField wellFormed.username nameRead
  rw [connectField_read wellFormed.username nameReadable] at nameRead
  cases nameRead
  rw [← List.append_nil
    (encodeField connect.flags connectPassword connect.password)]
    at passwordRead
  exact
    { willTopic := topicReadable
      willMsg := msgReadable
      username := nameReadable
      password := readable_of_connectField wellFormed.password passwordRead }

end

/-- The fields are not touched when the message has been acted on. -/
theorem decoded_mqttComplete {session : MqttSession} :
    Decoded connect (mqttComplete session) ↔ Decoded connect session := by
  have same :
      (mqttComplete session).protoId = session.protoId ∧
        (mqttComplete session).connectFlags = session.connectFlags ∧
        (mqttComplete session).kaTimer = session.kaTimer ∧
        (mqttComplete session).clientId = session.clientId ∧
        (mqttComplete session).willTopic = session.willTopic ∧
        (mqttComplete session).willMsg = session.willMsg ∧
        (mqttComplete session).username = session.username ∧
        (mqttComplete session).password = session.password := by
    unfold mqttComplete
    split
    · exact ⟨rfl, rfl, rfl, rfl, rfl, rfl, rfl, rfl⟩
    · exact ⟨rfl, rfl, rfl, rfl, rfl, rfl, rfl, rfl⟩
  rcases same with
    ⟨protoId, flags, kaTimer, clientId, topic, msg, name, password⟩
  constructor
  · intro decoded
    exact
      { protoId := protoId.symm.trans decoded.protoId
        connectFlags := flags.symm.trans decoded.connectFlags
        kaTimer := kaTimer.symm.trans decoded.kaTimer
        clientId := clientId.symm.trans decoded.clientId
        willTopic := topic.symm.trans decoded.willTopic
        willMsg := msg.symm.trans decoded.willMsg
        username := name.symm.trans decoded.username
        password := password.symm.trans decoded.password }
  · intro decoded
    exact
      { protoId := protoId.trans decoded.protoId
        connectFlags := flags.trans decoded.connectFlags
        kaTimer := kaTimer.trans decoded.kaTimer
        clientId := clientId.trans decoded.clientId
        willTopic := topic.trans decoded.willTopic
        willMsg := msg.trans decoded.willMsg
        username := name.trans decoded.username
        password := password.trans decoded.password }

/-- A message is decoded just where its numbers are read as they are written. -/
theorem finish_decoded_iff (wellFormed : WellFormed connect)
    {session : MqttSession}
    (holding : Holding connect session) :
    (∃ later, finish session = .okay later ∧ Decoded connect later) ↔
      Readable connect := by
  rcases parseVarhdr_read wellFormed holding with ⟨kaTimer, timer, header⟩
  let read : MqttSession :=
    { session with
      protoId := connect.level.id
      connectFlags := connect.flags
      kaTimer := kaTimer
      msgIn := { session.msgIn with payloadLen := (payload connect).length } }
  have atPayload : AtPayload connect read :=
    { msgType := holding.msgType
      connectFlags := rfl
      willTopic := holding.willTopic
      willMsg := holding.willMsg
      username := holding.username
      password := holding.password }
  unfold finish parsed
  rw [header, bind_okay]
  dsimp only
  constructor
  · rintro ⟨later, done, decoded⟩
    rcases bind_eq_okay done with ⟨between, inner, same⟩
    rcases bind_eq_okay inner with ⟨last, payloadRead, lastSame⟩
    cases same
    cases lastSame
    rw [decoded_mqttComplete] at decoded
    have strings :=
      stringsReadable_of_payload wellFormed atPayload payloadRead
        ⟨decoded.willTopic, decoded.willMsg, decoded.username,
          decoded.password⟩
    rw [parsePayload_read wellFormed strings atPayload] at payloadRead
    cases payloadRead
    exact
      { toStringsReadable := strings
        keepAlive := timer.mp decoded.kaTimer }
  · intro readable
    rw [parsePayload_read wellFormed readable.toStringsReadable atPayload]
    refine ⟨_, rfl, decoded_mqttComplete.mpr ?_⟩
    exact
      { protoId := rfl
        connectFlags := rfl
        kaTimer := timer.mpr readable.keepAlive
        clientId := by
          show
            connect.clientId ++
                session.clientId.drop connect.clientId.length =
              _
          rw [holding.clientId, List.drop_replicate]
        willTopic := rfl
        willMsg := rfl
        username := rfl
        password := rfl }

/-! ## The packet -/

theorem length_encodeString (text : Bytes) :
    (encodeString text).length = text.length + 2 := by
  rw [encodeString, List.length_append]
  exact Nat.add_comm ..

theorem length_encodeField_le (flags flag : UInt8) (text : Bytes) :
    (encodeField flags flag text).length ≤ text.length + 2 := by
  unfold encodeField
  split
  · exact Nat.le_of_eq (length_encodeString text)
  · exact Nat.zero_le _

/-- The message has bytes, and a remaining length of four digits at most. -/
theorem length_body (wellFormed : WellFormed connect) :
    0 < (body connect).length ∧ (body connect).length < 2 ^ 28 := by
  have name := length_name connect.level
  have few := wellFormed.clientId
  have topicShort := wellFormed.willTopic
  have msgShort := wellFormed.willMsg
  have nameShort := wellFormed.username
  have passwordShort := wellFormed.password
  have topic :=
    length_encodeField_le connect.flags connectWillFlag connect.willTopic
  have msg :=
    length_encodeField_le connect.flags connectWillFlag connect.willMsg
  have username :=
    length_encodeField_le connect.flags connectUsername connect.username
  have password :=
    length_encodeField_le connect.flags connectPassword connect.password
  have total :
      (body connect).length =
        connect.level.name.length + 6 +
          (connect.clientId.length + 2 +
            ((encodeField connect.flags connectWillFlag
                  connect.willTopic).length +
              ((encodeField connect.flags connectWillFlag
                    connect.willMsg).length +
                ((encodeField connect.flags connectUsername
                      connect.username).length +
                  (encodeField connect.flags connectPassword
                      connect.password).length)))) := by
    unfold body varHdr payload
    simp only [List.length_append, length_encodeString, List.length_cons,
      List.length_nil, encodeUint16]
  omega

/-- A new session that has had the first byte of the packet. -/
def started : MqttSession :=
  { ymoMqttSessionCreate with
    msgIn :=
      { ymoMqttSessionCreate.msgIn with
        msgType := ymoMqttConnect
        remain := 1
        parseState := .fixedLength } }

theorem feedControl_connect :
    feedControl ymoMqttSessionCreate ymoMqttConnect = .okay started :=
  rfl

/-- The session that has the remaining length too. -/
def announced (connect : ConnectPacket) : MqttSession :=
  mqttParseVarhdrInit
    (counted started (body connect).length
      (encode (body connect).length).length)

/-- The session that has the message. -/
def holder (connect : ConnectPacket) : MqttSession :=
  stored (announced connect) (body connect)

theorem holding_holder (connect : ConnectPacket) :
    Holding connect (holder connect) where
  msgType := rfl
  varHdr := List.nil_append _
  clientId := rfl
  willTopic := rfl
  willMsg := rfl
  username := rfl
  password := rfl

/-- The bytes of the packet make the session finish its message. -/
theorem feedAll_packet (wellFormed : WellFormed connect) :
    feedAll ymoMqttSessionCreate (packet connect) =
      finish (holder connect) := by
  have length := length_body wellFormed
  have few : (encode (body connect).length).length ≤ 4 :=
    length_encode_le length.2
  have remain : (body connect).length = (announced connect).msgIn.remain := by
    show (body connect).length = 0 + (body connect).length * 1
    omega
  have atMessage : (announced connect).msgIn.parseState = .varhdrPayload := rfl
  have atLength : started.msgIn.parseState = .fixedLength := rfl
  have whole :=
    feedAll_whole atMessage (List.length_pos_iff.mp length.1) remain []
  have counts :=
    feedAll_field (field_encode (body connect).length) atLength
      (room_one few) (body connect)
  rw [packet, feedAll, feed_of_control rfl, feedControl_connect, bind_okay,
    counts]
  rw [List.append_nil] at whole
  refine whole.trans ?_
  show bind (finish (holder connect)) (fun later => feedAll later []) = _
  cases finish (holder connect) with
  | okay later => rfl
  | failed errno => rfl
  | fault => rfl

/-- No read ends when some bytes of the remaining length have arrived, and not all
of them. -/
def LengthTogether (connect : ConnectPacket) (reads : List Bytes) : Prop :=
  ∀ front,
    front <+: reads →
      ¬(1 < front.flatten.length ∧
          front.flatten.length < (encode (body connect).length).length + 1)

/-- The session is decoded when the reads have been taken. -/
def DecodesReads (connect : ConnectPacket) (reads : List Bytes) : Prop :=
  ∃ later,
    readCbs ymoMqttSessionCreate reads = .consumed later [] ∧
      Decoded connect later

theorem prefix_flatten {front reads : List Bytes}
    (isPrefix : front <+: reads) :
    front.flatten <+: reads.flatten := by
  rcases isPrefix with ⟨back, split⟩
  exact ⟨back.flatten, by rw [← split, List.flatten_append]⟩

/-- The reads of a packet are not cut just where its remaining length is together;
a part of the packet in front of its last byte is always taken. -/
theorem uncut_iff (wellFormed : WellFormed connect) {reads : List Bytes}
    (split : reads.flatten = packet connect) :
    Uncut ymoMqttSessionCreate reads ↔ LengthTogether connect reads := by
  have length := length_body wellFormed
  have few : (encode (body connect).length).length ≤ 4 :=
    length_encode_le length.2
  have mid {part : Bytes} {later : MqttSession}
      (isPrefix : part <+: packet connect)
      (fed : feedAll ymoMqttSessionCreate part = .okay later) :=
    midLength_of_prefix rfl rfl feedControl_connect
      (field_encode (body connect).length) few isPrefix fed
  constructor
  · rintro uncut front isPrefix ⟨more, less⟩
    have inPacket : front.flatten <+: packet connect := by
      rw [← split]
      exact prefix_flatten isPrefix
    rcases
        feedAll_of_prefix rfl rfl feedControl_connect
          (field_encode (body connect).length) few inPacket less with
      ⟨later, fed⟩
    exact uncut front isPrefix later fed ((mid inPacket fed).mpr ⟨more, less⟩)
  · intro together front isPrefix later fed isMid
    have inPacket : front.flatten <+: packet connect := by
      rw [← split]
      exact prefix_flatten isPrefix
    exact together front isPrefix ((mid inPacket fed).mp isMid)

theorem atRest_create : AtRest ymoMqttSessionCreate :=
  ⟨ParseState.noConfusion, ParseState.noConfusion⟩

/-- A packet is decoded, however it is cut, just where its numbers are read as they
are written and its remaining length arrives together. -/
theorem connect_decoded_iff {connect : ConnectPacket}
    (wellFormed : WellFormed connect)
    {reads : List Bytes}
    (nonempty : ∀ received ∈ reads, received ≠ [])
    (split : reads.flatten = packet connect) :
    DecodesReads connect reads ↔
      Readable connect ∧ LengthTogether connect reads := by
  have spec := readCbs_spec atRest_create nonempty
  have decoded := finish_decoded_iff wellFormed (holding_holder connect)
  rw [split, feedAll_packet wellFormed] at spec
  unfold DecodesReads
  constructor
  · rintro ⟨later, taken, fields⟩
    have uncut : Uncut ymoMqttSessionCreate reads := by
      by_contra cut
      rw [spec.2 cut] at taken
      cases taken
    rw [spec.1 uncut] at taken
    refine ⟨decoded.mp ⟨later, ?_, fields⟩,
      (uncut_iff wellFormed split).mp uncut⟩
    cases done : finish (holder connect) with
    | okay last =>
        rw [done] at taken
        cases taken
        rfl
    | failed errno =>
        rw [done] at taken
        cases taken
    | fault =>
        rw [done] at taken
        cases taken
  · rintro ⟨readable, together⟩
    rcases decoded.mpr readable with ⟨later, done, fields⟩
    refine ⟨later, ?_, fields⟩
    rw [spec.1 ((uncut_iff wellFormed split).mpr together), done]
    rfl

/-- A client with a keep-alive of a minute, and a user name. -/
def someConnect : ConnectPacket where
  level := .mqtt
  flags := 0x82
  keepAlive := 60
  clientId := bytes "abc"
  willTopic := []
  willMsg := []
  username := bytes "me"
  password := []

theorem connect_decoded_someConnect :
    DecodesReads someConnect
      [[0x10, 0x13, 0x00], [0x04] ++ bytes "MQTT" ++ [0x04],
        [0x82, 0x00, 0x3c, 0x00, 0x03] ++ bytes "abc" ++ [0x00, 0x02] ++
          bytes "me"] := by
  have bodyLength : (body someConnect).length = 19 := rfl
  have digits : encode (body someConnect).length = [0x13] := by
    rw [bodyLength, encode, if_pos (by decide)]
    rfl
  have wellFormed : WellFormed someConnect := by constructor <;> decide
  refine (connect_decoded_iff wellFormed (by decide) ?_).mpr ⟨?_, ?_⟩
  · rw [packet, digits]
    rfl
  · exact
      { willTopic := fun present => absurd present (by decide)
        willMsg := fun present => absurd present (by decide)
        username := fun _ => by
          show 2 % 256 < 128
          decide
        password := fun present => absurd present (by decide)
        keepAlive := by
          show 60 % 256 < 128
          decide }
  · rintro front _ ⟨more, less⟩
    rw [digits] at less
    exact absurd more (Nat.not_lt.mpr (Nat.le_of_lt_succ less))

/-- The same client with a keep-alive of 128 seconds. -/
def longKeepAlive : ConnectPacket :=
  { someConnect with keepAlive := 128 }

/-- The bytes of that packet, in one read. -/
def longKeepAliveReads : List Bytes :=
  [[0x10, 0x13, 0x00, 0x04] ++ bytes "MQTT" ++
    [0x04, 0x82, 0x00, 0x80, 0x00, 0x03] ++ bytes "abc" ++ [0x00, 0x02] ++
      bytes "me"]

/-- A keep-alive of 128 seconds, which is 0x0080, is stored as 65408. -/
theorem keepAlive_negative :
    longKeepAliveReads.flatten = packet longKeepAlive ∧
      ¬DecodesReads longKeepAlive longKeepAliveReads := by
  have bodyLength : (body longKeepAlive).length = 19 := rfl
  have digits : encode (body longKeepAlive).length = [0x13] := by
    rw [bodyLength, encode, if_pos (by decide)]
    rfl
  constructor
  · rw [packet, digits]
    rfl
  · rintro ⟨later, taken, decoded⟩
    have stores :
        ∃ last,
          readCbs ymoMqttSessionCreate longKeepAliveReads =
              .consumed last [] ∧
            last.kaTimer = 65408 :=
      ⟨_, rfl, rfl⟩
    rcases stores with ⟨last, read, timer⟩
    rw [read] at taken
    cases taken
    rw [decoded.kaTimer] at timer
    exact absurd timer (by decide)

end Yimmo.Mqtt.Connect
