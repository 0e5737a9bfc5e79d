import Yimmo.Core.StatusCode
import Yimmo.Lib.TurnLoop
import Yimmo.Core.Characters

/-!
# The MQTT session

This module models `ymo_mqtt_session.c`, `ymo_mqtt_parse.c` and the read callback of
`ymo_proto_mqtt.c`.  A buffer is the list of the bytes that were received, and the
block `var_hdr` the list of the bytes of the message; a function that reads or
writes outside of its buffers is `fault`.

`char` is signed.  `errno` is a parameter where it matters: a parser that fails
leaves it as it is (`none`) or sets it.  Allocation does not fail, and what is only
logged is left out.
-/

namespace Yimmo.Mqtt.Session

open Yimmo.Core.Characters
open Yimmo.Core.StatusCode
open Yimmo.Lib.TurnLoop

/-! ## Constants -/

def ymoMqttFixedHdrTypeMask : UInt8 := 0xf0

def ymoMqttFixedHdrFlagMask : UInt8 := 0x0f

def ymoMqttConnect : UInt8 := 0x10

def ymoMqttConnack : UInt8 := 0x20

def ymoMqttPublish : UInt8 := 0x30

def ymoMqttPuback : UInt8 := 0x40

def ymoMqttPubrec : UInt8 := 0x50

def ymoMqttPubrel : UInt8 := 0x60

def ymoMqttPubcomp : UInt8 := 0x70

def ymoMqttSubscribe : UInt8 := 0x80

def ymoMqttSuback : UInt8 := 0x90

def ymoMqttUnsubscribe : UInt8 := 0xa0

def ymoMqttUnsuback : UInt8 := 0xb0

def ymoMqttPingreq : UInt8 := 0xc0

def ymoMqttPingresp : UInt8 := 0xd0

def ymoMqttDisconnect : UInt8 := 0xe0

/-- `LEN_MAX_MULT`. -/
def lenMaxMult : Nat := 0x200000

def connectWillFlag : UInt8 := 0x04

def connectPassword : UInt8 := 0x40

def connectUsername : UInt8 := 0x80

/-! ## The session -/

/-- `mqtt_parse_state_t`. -/
inductive ParseState where
  | fixedCtrlpack
  | fixedLength
  | varhdrPayload
  | complete
deriving DecidableEq

/-- `ymo_mqtt_state_t`. -/
inductive MqttState where
  | connecting
  | awaitingAuthentication
  | connected
  | disconnecting
  | disconnected
deriving DecidableEq

/-- `ymo_mqtt_str_t`; `val` is null at first. -/
structure MqttStr where
  val : Option Bytes
  len : UInt16
deriving DecidableEq

/-- `ymo_mqtt_msg_t`. -/
structure MqttMsg where
  msgLen : Nat
  payloadLen : Nat
  /-- `len_mult` and `msg_remain`, which share their storage. -/
  remain : Nat
  /-- The bytes stored in the block `var_hdr`, up to `payload`. -/
  varHdr : Bytes
  parseState : ParseState
  msgType : UInt8
deriving DecidableEq

/-- `ymo_mqtt_session_t`; `send` is the chain from `send_head`. -/
structure MqttSession where
  msgIn : MqttMsg
  state : MqttState
  send : List Bytes
  clientId : Bytes
  kaTimer : UInt16
  connectFlags : UInt8
  username : MqttStr
  password : MqttStr
  willTopic : MqttStr
  willMsg : MqttStr
  protoId : UInt8
deriving DecidableEq

/-- A string after `calloc`. -/
def MqttStr.null : MqttStr where
  val := none
  len := 0

/-- `sizeof(client_id)`. -/
def clientIdSize : Nat := 24

/-- `sizeof(proto_name)`. -/
def protoNameSize : Nat := 12

/-- `ymo_mqtt_session_create`. -/
def ymoMqttSessionCreate : MqttSession where
  msgIn :=
    { msgLen := 0
      payloadLen := 0
      remain := 0
      varHdr := []
      parseState := .fixedCtrlpack
      msgType := 0 }
  state := .connecting
  send := []
  clientId := List.replicate clientIdSize 0
  kaTimer := 0
  connectFlags := 0
  username := .null
  password := .null
  willTopic := .null
  willMsg := .null
  protoId := 0

/-! ## Sending -/

/-- `encode_remain`: the bytes that are stored from `out_buf` on. -/
def encodeRemain (len : Nat) : Bytes :=
  let e := UInt8.ofNat (len % 0x80)
  if len >>> 7 = 0 then [e]
  else (e ||| 0x80) :: encodeRemain (len >>> 7)
termination_by len
decreasing_by
  rw [Nat.shiftRight_eq_div_pow] at *
  omega

/-- `sizeof(fixed_hdr)`. -/
def fixedHdrSize : Nat := 5

/-- What a call of `ymo_mqtt_session_send` stores in `fixed_hdr`, what it leaves in
`errno`, and the session after it. -/
structure Sent where
  fixedHdr : Bytes
  errno : Status
  session : MqttSession

/-- `ymo_mqtt_session_send`. -/
def ymoMqttSessionSend (errno : Status) (session : MqttSession)
    (msgType msgFlags : UInt8)
    (buf : Bytes) :
    Sent :=
  let fixedHdr :=
    ((msgType &&& ymoMqttFixedHdrTypeMask) |||
        (msgFlags &&& ymoMqttFixedHdrFlagMask)) ::
      encodeRemain buf.length
  { fixedHdr := fixedHdr
    errno := errno
    session := { session with send := session.send ++ [fixedHdr, buf] } }

/-! ## The variable header and the payload -/

/-- `(uint16_t)(*src)`. -/
def charToUint16 (c : UInt8) : UInt16 :=
  c.toInt8.toInt16.toUInt16

/-- `PARSE_CONSUME_UINT16`, with what is left of the source. -/
def parseConsumeUint16 : Bytes → Option (UInt16 × Bytes)
  | high :: low :: src =>
      some ((charToUint16 high <<< 8) + charToUint16 low, src)
  | _ => none

/-- `PARSE_CONSUME_UINT8`. -/
def parseConsumeUint8 : Bytes → Option (UInt8 × Bytes)
  | c :: src => some (c, src)
  | [] => none

/-- `PARSE_CONSUME_STRVAL` into a destination of some size. -/
def parseConsumeStrval (size : Nat) (src : Bytes) (len : UInt16) :
    Option (Bytes × Bytes) :=
  if len.toNat ≤ size ∧ len.toNat ≤ src.length then
    some (src.take len.toNat, src.drop len.toNat)
  else none

/-- `PARSE_STRDUP`: the destination is a block of the length. -/
def parseStrdup (src : Bytes) : Option (MqttStr × Bytes) :=
  match parseConsumeUint16 src with
  | none => none
  | some (len, src) =>
      match parseConsumeStrval len.toNat src len with
      | none => none
      | some (val, src) => some ({ val := some val, len := len }, src)

/-- `PARSE_CONNECT_FIELD`: the field, if its flag is set, or what it was. -/
def parseConnectField (connectFlags flag : UInt8) (dst : MqttStr)
    (src : Bytes) :
    Option (MqttStr × Bytes) :=
  if connectFlags &&& flag ≠ 0 then parseStrdup src else some (dst, src)

/-- What a parser returns. -/
inductive Parsed (Value : Type) where
  | okay (value : Value)
  /-- A negative result, or a status that the caller stores in `errno`; without one
  `errno` is what it was. -/
  | failed (errno : Option Errno)
  | fault

/-- The protocols that are known. -/
def knownProto (protoId : UInt8) (protoName : Bytes) : Bool :=
  (protoId == 0x04 && protoName == bytes "MQTT") ||
    (protoId == 0x03 && protoName == bytes "MQIsdp")

/-- `mqtt_parse_varhdr`, on the block; what is left of it is the payload. -/
def mqttParseVarhdr (session : MqttSession) : Parsed (MqttSession × Bytes) :=
  let payload := session.msgIn.varHdr
  if session.msgIn.msgType = ymoMqttConnect then
    match parseConsumeUint16 payload with
    | none => .fault
    | some (protoLen, payload) =>
        match parseConsumeStrval protoNameSize payload protoLen with
        | none => .fault
        | some (protoName, payload) =>
            match parseConsumeUint8 payload with
            | none => .fault
            | some (protoId, payload) =>
                if knownProto protoId protoName then
                  match parseConsumeUint8 payload with
                  | none => .fault
                  | some (connectFlags, payload) =>
                      match parseConsumeUint16 payload with
                      | none => .fault
                      | some (kaTimer, payload) =>
                          .okay
                            ({ session with
                                protoId := protoId
                                connectFlags := connectFlags
                                kaTimer := kaTimer
                                msgIn :=
                                  { session.msgIn with
                                    payloadLen := payload.length } },
                              payload)
                else .failed (some .einval)
  else
    .okay
      ({ session with
          msgIn := { session.msgIn with payloadLen := payload.length } },
        payload)

/-- `mqtt_parse_payload`. -/
def mqttParsePayload (session : MqttSession) (current : Bytes) :
    Parsed MqttSession :=
  if session.msgIn.msgType = ymoMqttConnect then
    match parseConsumeUint16 current with
    | none => .fault
    | some (cidLen, current) =>
        match parseConsumeStrval clientIdSize current cidLen with
        | none => .fault
        | some (clientId, current) =>
            let flags := session.connectFlags
            match
              parseConnectField flags connectWillFlag session.willTopic
                current with
            | none => .fault
            | some (willTopic, current) =>
                match
                  parseConnectField flags connectWillFlag session.willMsg
                    current with
                | none => .fault
                | some (willMsg, current) =>
                    match
                      parseConnectField flags connectUsername
                        session.username current with
                    | none => .fault
                    | some (username, current) =>
                        match
                          parseConnectField flags connectPassword
                            session.password current with
                        | none => .fault
                        | some (password, _) =>
                            .okay
                              { session with
                                clientId :=
                                  clientId ++
                                    session.clientId.drop clientId.length
                                willTopic := willTopic
                                willMsg := willMsg
                                username := username
                                password := password }
  else .okay session

/-! ## The parsers -/

/-- `mqtt_parse_reset`. -/
def mqttParseReset (session : MqttSession) : MqttSession :=
  { session with
    msgIn :=
      { session.msgIn with
        parseState := .fixedCtrlpack
        remain := 0
        msgType := 0
        msgLen := 0
        varHdr := [] } }

/-- `mqtt_parse_varhdr_init`. -/
def mqttParseVarhdrInit (session : MqttSession) : MqttSession :=
  { session with
    msgIn :=
      { session.msgIn with
        remain := session.msgIn.msgLen
        varHdr := []
        parseState := .varhdrPayload } }

/-- The switch of `ymo_mqtt_parse_fixed_ctrlpack` goes to `ctrl_inval`. -/
def ctrlInval (state : MqttState) (msgType msgFlags : UInt8) : Bool :=
  if msgType = ymoMqttConnect then
    decide (state ≠ .connecting) || msgFlags != 0
  else if msgType = ymoMqttConnack then msgFlags != 0
  else if msgType = ymoMqttPublish then false
  else if msgType = ymoMqttPuback then msgFlags != 0
  else if msgType = ymoMqttPubrec then msgFlags != 0
  else if msgType = ymoMqttPubrel then msgFlags != 2
  else if msgType = ymoMqttPubcomp then msgFlags != 0
  else if msgType = ymoMqttSubscribe then msgFlags != 2
  else if msgType = ymoMqttSuback then msgFlags != 0
  else if msgType = ymoMqttUnsubscribe then msgFlags != 2
  else if msgType = ymoMqttUnsuback then msgFlags != 0
  else if msgType = ymoMqttPingreq then msgFlags != 0
  else if msgType = ymoMqttPingresp then msgFlags != 0
  else false

/-- `ymo_mqtt_parse_fixed_ctrlpack`, on the first byte of the buffer. -/
def ymoMqttParseFixedCtrlpack (session : MqttSession) :
    Bytes → Parsed (Nat × MqttSession)
  | [] => .fault
  | fixedHdr :: _ =>
      let msgType := fixedHdr &&& ymoMqttFixedHdrTypeMask
      let msgFlags := fixedHdr &&& ymoMqttFixedHdrFlagMask
      if ctrlInval session.state msgType msgFlags then .failed none
      else
        .okay
          (1,
            { session with
              msgIn :=
                { session.msgIn with
                  msgType := msgType
                  remain := 1
                  parseState := .fixedLength } })

/--
The loop of `ymo_mqtt_parsed_fixed_len`, which was entered `turns` turns ago.  The
condition of the loop tests `len`, which is not counted down.
-/
def fixedLenLoop (session : MqttSession) (turns : Nat) :
    Bytes → Parsed (Nat × MqttSession)
  | [] =>
      if session.msgIn.remain > lenMaxMult then .failed (some .einval)
      else .fault
  | c :: rest =>
      if session.msgIn.remain > lenMaxMult then .failed (some .einval)
      else
        let counted :=
          { session with
            msgIn :=
              { session.msgIn with
                msgLen :=
                  session.msgIn.msgLen +
                    (c &&& 0x7f).toNat * session.msgIn.remain
                remain := session.msgIn.remain * 0x80 } }
        if c &&& 0x80 ≠ 0 then fixedLenLoop counted (turns + 1) rest
        else .okay (turns + 1, mqttParseVarhdrInit counted)

/-- `ymo_mqtt_parsed_fixed_len`, on a buffer that is not empty. -/
def ymoMqttParsedFixedLen (session : MqttSession) (buffer : Bytes) :
    Parsed (Nat × MqttSession) :=
  fixedLenLoop session 0 buffer

/-- `ymo_mqtt_parse_varhdr_payload`. -/
def ymoMqttParseVarhdrPayload (session : MqttSession) (buffer : Bytes) :
    Parsed (Nat × MqttSession) :=
  let toCopy := min buffer.length session.msgIn.remain
  let stored :=
    { session with
      msgIn :=
        { session.msgIn with
          varHdr := session.msgIn.varHdr ++ buffer.take toCopy
          remain := session.msgIn.remain - toCopy } }
  if stored.msgIn.remain = 0 then
    match mqttParseVarhdr stored with
    | .fault => .fault
    | .failed errno => .failed errno
    | .okay (session, payload) =>
        match mqttParsePayload session payload with
        | .fault => .fault
        | .failed errno => .failed errno
        | .okay session =>
            .okay
              (toCopy,
                { session with
                  msgIn := { session.msgIn with parseState := .complete } })
  else .okay (toCopy, stored)

/-! ## The read callback -/

/-- `connack_msg`. -/
def connackMsg : Bytes := [0x00, 0x00]

/-- What follows the label `mqtt_parse_complete`. -/
def mqttComplete (session : MqttSession) : MqttSession :=
  if session.msgIn.msgType = ymoMqttConnect then
    let sent := ymoMqttSessionSend .okay session ymoMqttConnack 0 connackMsg
    mqttParseReset { sent.session with state := .connected }
  else mqttParseReset session

/-- What a call of the read callback returns. -/
inductive ReadResult where
  /-- The number of bytes consumed is that of the bytes no longer there. -/
  | consumed (session : MqttSession) (rest : Bytes)
  /-- `-1`. -/
  | failed (errno : Option Errno)
  | fault
  /-- The loop was given up on. -/
  | lost

/-- The parser of a state. -/
def parserOf (session : MqttSession) (buffer : Bytes) :
    Parsed (Nat × MqttSession) :=
  match session.msgIn.parseState with
  | .fixedCtrlpack => ymoMqttParseFixedCtrlpack session buffer
  | .fixedLength => ymoMqttParsedFixedLen session buffer
  | _ => ymoMqttParseVarhdrPayload session buffer

/-- One turn of the loop of `ymo_proto_mqtt_read`, and what follows the loop. -/
def readTurn :
    MqttSession × Bytes → Turn (MqttSession × Bytes) ReadResult
  | (session, buffer) =>
      if session.msgIn.parseState = .complete then
        .done (.consumed (mqttComplete session) buffer)
      else
        match parserOf session buffer with
        | .fault => .done .fault
        | .failed errno => .done (.failed errno)
        | .okay (n, session) =>
            if buffer.drop n = [] then
              if session.msgIn.parseState = .complete then
                .done (.consumed (mqttComplete session) [])
              else .done (.consumed session [])
            else .again (session, buffer.drop n)

/-- `ymo_proto_mqtt_read`. -/
def ymoProtoMqttRead (session : MqttSession) (recvBuf : Bytes) : ReadResult :=
  loop readTurn (fun _ => .lost) (3 * recvBuf.length + 3) (session, recvBuf)

/-- One turn of the loop of `ymo_read_cb`, which offers what was not consumed
again. -/
def offerTurn :
    MqttSession × Bytes → Turn (MqttSession × Bytes) ReadResult
  | (session, buffer) =>
      match ymoProtoMqttRead session buffer with
      | .consumed session rest =>
          if rest = [] then .done (.consumed session [])
          else .again (session, rest)
      | result => .done result

/-- The loop of `ymo_read_cb` over the bytes of one read. -/
def readCb (session : MqttSession) (received : Bytes) : ReadResult :=
  loop offerTurn (fun _ => .lost) (3 * received.length + 3) (session, received)

/-- The reads of a connection, one after the other, until one fails. -/
def readCbs : MqttSession → List Bytes → ReadResult
  | session, [] => .consumed session []
  | session, received :: later =>
      match readCb session received with
      | .consumed session _ => readCbs session later
      | result => result

end Yimmo.Mqtt.Session
