import Mathlib.Data.BitVec
import Mathlib.Data.Finset.Card
import Yimmo.Core.StatusCode
import Yimmo.Lib.GuardedRun

/-!
# The connections of a server

This module models the thread of a server's event loop, from
`ymo_conn_accept` to `close_and_free_connection`, and the count of connections
by which a graceful stop is decided.  Connections are numbered in the order of
their creation.

The thread can be inside a protocol's read callback, which may write, and inside
`ymo_conn_close`, which receives until the peer has closed its side.  Each result
of that `recv` is a step of its own; nothing else happens in between.
-/

namespace Yimmo.Core.Connections

open Yimmo.Core.StatusCode
open Yimmo.Lib.GuardedRun

/-! ## Data -/

/-- `ymo_conn_state_t`. -/
inductive ConnState where
  | connOpen
  | tlsHandshake
  | tlsEstablished
  | tlsClosing
  | tlsClosed
  | shutdown
  | closing
  | closed
deriving DecidableEq, Repr

/-- `ymo_conn_t`, whether it was accepted to the end, and its calls of `free`. -/
structure Conn where
  fd : Nat
  state : ConnState
  accepted : Bool
  frees : Nat
deriving DecidableEq, Repr

/-- `ymo_server_state_t`, from the start of the server on. -/
inductive ServerState where
  | started
  | stopGraceful
deriving DecidableEq, Repr

/-- `ymo_server_t`, with its connections and the place of its thread. -/
structure Server where
  state : ServerState
  /-- `size_t`. -/
  noConn : BitVec 64
  conns : Nat → Conn
  created : Nat
  /-- The connection whose read callback runs. -/
  inRead : Option Nat
  /-- The connection whose `ymo_conn_close` receives. -/
  inClose : Option Nat
  /-- `ev_break` was called. -/
  broken : Bool

def Conn.blank : Conn where
  fd := 0
  state := .closed
  accepted := false
  frees := 0

/-- A server that was started. -/
def Server.initial : Server where
  state := .started
  noConn := 0
  conns := fun _ => Conn.blank
  created := 0
  inRead := none
  inClose := none
  broken := false

/-- What `ymo_init_ssl` does. -/
inductive TlsInit where
  /-- The server has no TLS context. -/
  | off
  | failed
  | handshake
deriving DecidableEq, Repr

/-- What the callbacks of `conn_proto_init` return. -/
structure ProtoInit where
  /-- `conn_init_cb` returned something. -/
  data : Bool
  errno : Status
  /-- What `conn_ready_cb` returned, if there is one. -/
  ready : Option Status
deriving DecidableEq, Repr

/-! ## Connections -/

namespace Server

def setConn (server : Server) (id : Nat) (conn : Conn) : Server :=
  { server with
    conns := fun other => if other = id then conn else server.conns other }

/-- The connection was accepted to the end and has not been freed. -/
def Live (server : Server) (id : Nat) : Prop :=
  id < server.created ∧ (server.conns id).accepted = true ∧
    (server.conns id).frees = 0

instance (server : Server) (id : Nat) : Decidable (server.Live id) :=
  inferInstanceAs (Decidable (_ ∧ _))

/-- The number of those connections. -/
def live (server : Server) : Nat :=
  ((Finset.range server.created).filter server.Live).card

/-- `ymo_conn_create`. -/
def ymoConnCreate (server : Server) (fd : Nat) : Server :=
  { server.setConn server.created
      { fd := fd
        state := .connOpen
        accepted := false
        frees := 0 } with
    created := server.created + 1 }

/--
`ymo_conn_close`, up to its loop: the connection, and whether the loop begins.  A
connection that is not to be closed cleanly is closed at once.
-/
def ymoConnClose (conn : Conn) (clean : Bool) : Conn × Bool :=
  let state := if clean then conn.state else .closing
  match state with
  | .tlsEstablished | .tlsClosing | .tlsHandshake | .tlsClosed
  | .connOpen | .shutdown => ({ conn with state := .shutdown }, true)
  | .closing | .closed => ({ conn with state := .closed }, false)

/-- `close_and_free_connection`, once the connection is closed. -/
def freeConnection (server : Server) (id : Nat) : Server :=
  let conn := server.conns id
  let noConn := server.noConn - 1
  { server.setConn id { conn with frees := conn.frees + 1 } with
    noConn := noConn
    inClose := none
    broken := server.broken || server.state = .stopGraceful && noConn == 0 }

/-- `close_and_free_connection`. -/
def closeAndFreeConnection (server : Server) (id : Nat) (clean : Bool) :
    Server :=
  let (conn, receives) := ymoConnClose (server.conns id) clean
  let closed := server.setConn id conn
  if receives then { closed with inClose := some id }
  else closed.freeConnection id

/--
A turn of the loop of `ymo_conn_close`.  Its length is a `size_t`, so an error of
`recv` counts as a positive length, and the test for a negative length that
follows the loop fails.
-/
def received (server : Server) (id : Nat) (result : Int) : Server :=
  let len := BitVec.ofInt 64 result
  if len = 0 then
    (server.setConn id
      { server.conns id with state := .closed }).freeConnection id
  else server

/-- `conn_proto_init`. -/
def connProtoInit (init : ProtoInit) : Status :=
  if init.data then
    match init.ready with
    | none => .okay
    | some status => status
  else init.errno

/-- `ymo_conn_accept`. -/
def ymoConnAccept (server : Server) (fd : Nat) (allocated : Bool)
    (tls : TlsInit)
    (init : ProtoInit) :
    Server :=
  if allocated then
    let id := server.created
    let created := server.ymoConnCreate fd
    if tls = .failed then created.closeAndFreeConnection id true
    else
      let conn := created.conns id
      let secured :=
        created.setConn id
          { conn with
            state := if tls = .handshake then .tlsHandshake else conn.state }
      if connProtoInit init ≠ .okay then secured.closeAndFreeConnection id true
      else
        { secured.setConn id
            { secured.conns id with accepted := true } with
          noConn := server.noConn + 1 }
  else server

/-- `ymo_server_stop_graceful`. -/
def ymoServerStopGraceful (server : Server) : Server :=
  { server with
    state := .stopGraceful
    broken := server.broken || server.noConn == 0 }

end Server

/-! ## Steps -/

/-- What may happen next. -/
inductive Action where
  /-- `accept` returned a descriptor. -/
  | accept (fd : Nat) (allocated : Bool) (tls : TlsInit) (init : ProtoInit)
  /-- `SSL_accept` succeeds. -/
  | established (id : Nat)
  /-- `ymo_read_cb` finds that the connection is lost. -/
  | lost (id : Nat)
  /-- `ymo_read_cb` calls the protocol's read callback. -/
  | readBegin (id : Nat)
  /-- The callback returns. -/
  | readEnd (status : Status)
  /-- A protocol calls `ymo_conn_shutdown`. -/
  | shutdown (id : Nat)
  /-- `ymo_write_cb`, from the event loop or from `ymo_conn_tx_now`. -/
  | written (id : Nat) (status : Status)
  /-- The idle timer fires. -/
  | idleTimeout (id : Nat)
  /-- `recv` returns, in the loop of `ymo_conn_close`. -/
  | received (result : Int)
  | stopGraceful
deriving DecidableEq, Repr

namespace Server

/-- The thread is in its event loop. -/
def Polling (server : Server) : Prop :=
  server.inRead = none ∧ server.inClose = none

instance (server : Server) : Decidable server.Polling :=
  inferInstanceAs (Decidable (_ ∧ _))

/-- No connection that exists has the descriptor. -/
def Unused (server : Server) (fd : Nat) : Prop :=
  ∀ id < server.created,
    (server.conns id).frees = 0 → (server.conns id).fd ≠ fd

instance (server : Server) (fd : Nat) : Decidable (server.Unused fd) :=
  inferInstanceAs (Decidable (∀ id < server.created, _))

/-- Set the state of a connection. -/
def setState (server : Server) (id : Nat) (state : ConnState) : Server :=
  server.setConn id { server.conns id with state := state }

/-- The status makes the caller close the connection. -/
def Fails (status : Status) : Prop :=
  status ≠ .okay ∧ ymoIsBlocked status = false

instance (status : Status) : Decidable (Fails status) :=
  inferInstanceAs (Decidable (_ ∧ _))

/-- The effect of an action.  One that is not possible has none. -/
def step (server : Server) : Action → Server
  | .accept fd allocated tls init =>
      if server.Polling ∧ server.state = .started ∧ 0 < fd ∧
          fd < 2 ^ 31 ∧ server.Unused fd then
        server.ymoConnAccept fd allocated tls init
      else server
  | .established id =>
      if server.Polling ∧ server.Live id ∧
          (server.conns id).state = .tlsHandshake then
        server.setState id .tlsEstablished
      else server
  | .lost id =>
      if server.Polling ∧ server.Live id then
        server.closeAndFreeConnection id false
      else server
  | .readBegin id =>
      if server.Polling ∧ server.Live id ∧
          ((server.conns id).state = .connOpen ∨
            (server.conns id).state = .tlsEstablished) then
        { server with inRead := some id }
      else server
  | .readEnd status =>
      match server.inRead with
      | none => server
      | some id =>
          if server.inClose = none then
            if Fails status then
              { server with inRead := none }.closeAndFreeConnection id false
            else { server with inRead := none }
          else server
  | .shutdown id =>
      if server.inClose = none ∧ server.Live id then
        server.setState id .shutdown
      else server
  | .written id status =>
      if server.inClose = none ∧ server.Live id then
        if Fails status then server.closeAndFreeConnection id true
        else server
      else server
  | .idleTimeout id =>
      if server.Polling ∧ server.Live id then
        server.closeAndFreeConnection id true
      else server
  | .received result =>
      match server.inClose with
      | none => server
      | some id => server.received id result
  | .stopGraceful =>
      if server.inClose = none then server.ymoServerStopGraceful
      else server

end Server

/-! ## The claim about a state, and its condition -/

/--
The count is the number of connections that were accepted and not freed, and a
graceful stop breaks the event loop when there are none.
-/
structure Accounted (server : Server) : Prop where
  counted : server.noConn.toNat = server.live
  broken :
    server.state = .stopGraceful → (server.broken = true ↔ server.live = 0)

/--
The condition on a step: once a connection was created, its setup does not fail;
and no write from inside a connection's read callback fails on that connection.
-/
def Guard (server : Server) : Action → Prop
  | .accept _ allocated tls init =>
      allocated = true → tls ≠ .failed ∧ Server.connProtoInit init = .okay
  | .written id status => server.inRead = some id → ¬Server.Fails status
  | _ => True

instance (server : Server) : ∀ action, Decidable (Guard server action)
  | .accept _ allocated tls init =>
      inferInstanceAs
        (Decidable
          (allocated = true →
            tls ≠ .failed ∧ Server.connProtoInit init = .okay))
  | .written id status =>
      inferInstanceAs
        (Decidable (server.inRead = some id → ¬Server.Fails status))
  | .established _ | .lost _ | .readBegin _ | .readEnd _ | .shutdown _
  | .idleTimeout _ | .received _ | .stopGraceful => .isTrue trivial

/-! ## The invariant -/

/-- The connection was created and not freed. -/
def Exists (server : Server) (id : Nat) : Prop :=
  id < server.created ∧ (server.conns id).frees = 0

/-- What holds between the steps. -/
structure Sound (server : Server) : Prop where
  counted : server.noConn = BitVec.ofNat 64 server.live
  distinct :
    ∀ first second, Exists server first → Exists server second →
      (server.conns first).fd = (server.conns second).fd →
        first = second
  bounded : ∀ id, Exists server id → (server.conns id).fd < 2 ^ 31
  reading : ∀ id, server.inRead = some id → server.Live id
  closing : ∀ id, server.inClose = some id → server.Live id
  apart : ∀ id, server.inRead = some id → server.inClose ≠ some id
  started : server.state = .started → server.broken = false
  stopped :
    server.state = .stopGraceful → (server.broken = true ↔ server.live = 0)

section Invariant

variable
    {server : Server}
    {id : Nat}

/-- Descriptors are `int`s, so that the count cannot overflow. -/
theorem Sound.live_le (sound : Sound server) : server.live ≤ 2 ^ 31 := by
  have bound :
      ((Finset.range server.created).filter server.Live).card ≤
        (Finset.range (2 ^ 31)).card := by
    apply Finset.card_le_card_of_injOn fun id => (server.conns id).fd
    · intro id member
      have alive := (Finset.mem_filter.mp member).2
      exact
        Finset.mem_coe.mpr
          (Finset.mem_range.mpr (sound.bounded id ⟨alive.1, alive.2.2⟩))
    · intro first firstMember second secondMember same
      have firstAlive := (Finset.mem_filter.mp firstMember).2
      have secondAlive := (Finset.mem_filter.mp secondMember).2
      exact
        sound.distinct first second ⟨firstAlive.1, firstAlive.2.2⟩
          ⟨secondAlive.1, secondAlive.2.2⟩ same
  rw [Finset.card_range] at bound
  exact bound

theorem Sound.toNat_noConn (sound : Sound server) :
    server.noConn.toNat = server.live := by
  have bound := sound.live_le
  rw [sound.counted, BitVec.toNat_ofNat]
  omega

theorem Sound.noConn_eq_zero (sound : Sound server) :
    server.noConn = 0 ↔ server.live = 0 := by
  rw [← BitVec.toNat_inj, sound.toNat_noConn]
  rfl

theorem setConn_conns (conn : Conn) (other : Nat) :
    (server.setConn id conn).conns other =
      if other = id then conn else server.conns other :=
  rfl

/-- A change that leaves a connection accepted or not, and existing or not. -/
theorem Live.setConn {conn : Conn}
    (accepted : conn.accepted = (server.conns id).accepted)
    (frees : conn.frees = (server.conns id).frees)
    (other : Nat) :
    (server.setConn id conn).Live other ↔ server.Live other := by
  unfold Server.Live
  rw [setConn_conns]
  by_cases here : other = id
  · rw [if_pos here, here, accepted, frees]
    rfl
  · rw [if_neg here]
    rfl

theorem live_setConn {conn : Conn}
    (accepted : conn.accepted = (server.conns id).accepted)
    (frees : conn.frees = (server.conns id).frees) :
    (server.setConn id conn).live = server.live := by
  unfold Server.live
  congr 1
  apply Finset.filter_congr
  intro other _
  exact Live.setConn accepted frees other

/-- Such a change keeps the invariant. -/
theorem Sound.setState (sound : Sound server) (id : Nat) (state : ConnState) :
    Sound (server.setState id state) := by
  have live : (server.setState id state).live = server.live :=
    live_setConn rfl rfl
  have alive (other : Nat) :
      (server.setState id state).Live other ↔ server.Live other := by
    apply Live.setConn
    · rfl
    · rfl
  have part {Value : Type} (part : Conn → Value)
      (same :
        part { server.conns id with state := state } = part (server.conns id))
      (other : Nat) :
      part ((server.setState id state).conns other) =
        part (server.conns other) := by
    unfold Server.setState
    rw [setConn_conns]
    by_cases here : other = id
    · rw [if_pos here, here]
      exact same
    · rw [if_neg here]
  have frees := part Conn.frees rfl
  have fd := part Conn.fd rfl
  constructor
  case counted =>
    rw [live]
    exact sound.counted
  case distinct =>
    intro first second firstExists secondExists same
    unfold Exists at firstExists secondExists
    rw [frees] at firstExists secondExists
    rw [fd, fd] at same
    exact sound.distinct first second firstExists secondExists same
  case bounded =>
    intro other isThere
    unfold Exists at isThere
    rw [frees] at isThere
    rw [fd]
    exact sound.bounded other isThere
  case reading =>
    intro other same
    exact (alive other).mpr (sound.reading other same)
  case closing =>
    intro other same
    exact (alive other).mpr (sound.closing other same)
  case apart => exact sound.apart
  case started => exact sound.started
  case stopped =>
    rw [live]
    exact sound.stopped

/-- `close_and_free_connection`, once the connection is closed. -/
theorem Sound.freeConnection (sound : Sound server) (alive : server.Live id)
    (elsewhere : server.inRead ≠ some id) :
    Sound (server.freeConnection id) := by
  have conns (other : Nat) :
      (server.freeConnection id).conns other =
        if other = id then
          { server.conns id with frees := (server.conns id).frees + 1 }
        else server.conns other :=
    rfl
  have aliveAfter (other : Nat) :
      (server.freeConnection id).Live other ↔
        server.Live other ∧ other ≠ id := by
    unfold Server.Live
    rw [conns]
    by_cases here : other = id
    · rw [if_pos here]
      constructor
      · rintro ⟨-, -, freed⟩
        cases freed
      · rintro ⟨-, different⟩
        exact absurd here different
    · rw [if_neg here]
      constructor
      · intro before
        exact ⟨before, here⟩
      · rintro ⟨before, -⟩
        exact before
  have isThere {other : Nat}
      (after : Exists (server.freeConnection id) other) :
      other ≠ id ∧ Exists server other := by
    unfold Exists at after
    rw [conns] at after
    by_cases here : other = id
    · rw [if_pos here] at after
      cases after.2
    · rw [if_neg here] at after
      exact ⟨here, after⟩
  have member : id ∈ (Finset.range server.created).filter server.Live :=
    Finset.mem_filter.mpr ⟨Finset.mem_range.mpr alive.1, alive⟩
  have fewer : (server.freeConnection id).live + 1 = server.live := by
    have erased :
        (Finset.range server.created).filter
            (server.freeConnection id).Live =
          ((Finset.range server.created).filter server.Live).erase id := by
      ext other
      rw [Finset.mem_erase, Finset.mem_filter, Finset.mem_filter, aliveAfter]
      constructor
      · rintro ⟨inside, before, different⟩
        exact ⟨different, inside, before⟩
      · rintro ⟨different, inside, before⟩
        exact ⟨inside, before, different⟩
    show ((Finset.range server.created).filter
      (server.freeConnection id).Live).card + 1 = server.live
    rw [erased, Finset.card_erase_add_one member]
    rfl
  have counted :
      server.noConn - 1 = BitVec.ofNat 64 (server.freeConnection id).live := by
    rw [sound.counted, ← fewer, BitVec.ofNat_add]
    exact BitVec.add_sub_cancel _ _
  have small : (server.freeConnection id).live ≤ 2 ^ 31 := by
    have bound := sound.live_le
    omega
  have zero :
      (server.noConn - 1 == 0) = true ↔
        (server.freeConnection id).live = 0 := by
    rw [beq_iff_eq, counted, ← BitVec.toNat_inj, BitVec.toNat_ofNat,
      Nat.mod_eq_of_lt (by omega)]
    rfl
  constructor
  case counted => exact counted
  case distinct =>
    intro first second firstExists secondExists same
    rcases isThere firstExists with ⟨firstAway, firstBefore⟩
    rcases isThere secondExists with ⟨secondAway, secondBefore⟩
    rw [conns, conns, if_neg firstAway, if_neg secondAway] at same
    exact sound.distinct first second firstBefore secondBefore same
  case bounded =>
    intro other after
    rcases isThere after with ⟨away, before⟩
    rw [conns, if_neg away]
    exact sound.bounded other before
  case reading =>
    intro other same
    refine (aliveAfter other).mpr ⟨sound.reading other same, ?_⟩
    intro here
    rw [here] at same
    exact elsewhere same
  case closing =>
    intro other same
    cases same
  case apart =>
    intro other _ same
    cases same
  case started =>
    intro isStarted
    have before : server.state = .started := isStarted
    show (server.broken ||
      server.state = .stopGraceful && server.noConn - 1 == 0) = false
    rw [sound.started before, before]
    rfl
  case stopped =>
    intro isStopped
    have before : server.state = .stopGraceful := isStopped
    have unbroken : server.broken = false := by
      rw [← Bool.not_eq_true, sound.stopped before]
      omega
    show (server.broken ||
      server.state = .stopGraceful && server.noConn - 1 == 0) = true ↔ _
    rw [unbroken, before, ← zero]
    rfl

/-- The thread enters or leaves a read callback, or the loop of a close. -/
theorem Sound.setPlace (sound : Sound server) {inRead inClose : Option Nat}
    (reading : ∀ id, inRead = some id → server.Live id)
    (closing : ∀ id, inClose = some id → server.Live id)
    (apart : ∀ id, inRead = some id → inClose ≠ some id) :
    Sound { server with inRead := inRead, inClose := inClose } :=
  ⟨sound.counted, sound.distinct, sound.bounded, reading, closing, apart,
    sound.started, sound.stopped⟩

theorem Sound.closeAndFreeConnection (sound : Sound server)
    (alive : server.Live id)
    (elsewhere : server.inRead ≠ some id)
    (clean : Bool) :
    Sound (server.closeAndFreeConnection id clean) := by
  have closed (state : ConnState) :
      Sound ((server.setState id state).freeConnection id) := by
    apply (sound.setState id state).freeConnection _ elsewhere
    apply (Live.setConn _ _ id).mpr alive
    · rfl
    · rfl
  have waits :
      Sound { server.setState id .shutdown with inClose := some id } := by
    have kept := sound.setState id .shutdown
    have stays : (server.setState id .shutdown).Live id := by
      apply (Live.setConn _ _ id).mpr alive
      · rfl
      · rfl
    apply kept.setPlace kept.reading
    · intro other same
      rw [← Option.some.inj same]
      exact stays
    · intro other read same
      rw [← Option.some.inj same] at read
      exact elsewhere read
  unfold Server.closeAndFreeConnection Server.ymoConnClose
  cases clean with
  | false => exact closed .closed
  | true =>
      rcases state : (server.conns id).state
      all_goals
        simp only [if_true]
        first
          | exact waits
          | exact closed .closed

theorem setConn_setConn (server : Server) (id : Nat) (first second : Conn) :
    (server.setConn id first).setConn id second =
      server.setConn id second := by
  unfold Server.setConn
  congr 1
  funext other
  by_cases here : other = id
  · rw [if_pos here, if_pos here]
  · simp only [if_neg here]

/-- `ymo_conn_accept`, when nothing fails once the connection is created. -/
theorem ymoConnAccept_eq {tls : TlsInit} {init : ProtoInit} (fd : Nat)
    (secured : tls ≠ .failed)
    (ready : Server.connProtoInit init = .okay) :
    ∃ state,
      server.ymoConnAccept fd true tls init =
        { server.setConn server.created
            { fd := fd, state := state, accepted := true, frees := 0 } with
          created := server.created + 1
          noConn := server.noConn + 1 } := by
  unfold Server.ymoConnAccept
  dsimp only
  rw [if_pos rfl, if_neg secured, if_neg (not_not_intro ready)]
  have new :
      (server.ymoConnCreate fd).conns server.created =
        { fd := fd, state := .connOpen, accepted := false, frees := 0 } :=
    if_pos rfl
  rw [setConn_setConn, setConn_conns, if_pos rfl, new]
  refine ⟨if tls = .handshake then .tlsHandshake else .connOpen, ?_⟩
  have twice :=
    setConn_setConn server server.created
      { fd := fd, state := .connOpen, accepted := false, frees := 0 }
      { fd := fd
        state := if tls = .handshake then .tlsHandshake else .connOpen
        accepted := true
        frees := 0 }
  rw [← twice]
  rfl

theorem Sound.accept (sound : Sound server) {fd : Nat} {tls : TlsInit}
    {init : ProtoInit}
    (running : server.state = .started)
    (small : fd < 2 ^ 31)
    (unused : server.Unused fd)
    (secured : tls ≠ .failed)
    (ready : Server.connProtoInit init = .okay) :
    Sound (server.ymoConnAccept fd true tls init) := by
  rcases ymoConnAccept_eq fd secured ready with ⟨state, step⟩
  rw [step]
  let after : Server :=
    { server.setConn server.created
        { fd := fd, state := state, accepted := true, frees := 0 } with
      created := server.created + 1
      noConn := server.noConn + 1 }
  show Sound after
  have new :
      after.conns server.created =
        { fd := fd, state := state, accepted := true, frees := 0 } :=
    if_pos rfl
  have old {other : Nat} (below : other < server.created) :
      after.conns other = server.conns other :=
    if_neg (Nat.ne_of_lt below)
  have newOrOld {other : Nat} (isThere : Exists after other) :
      other = server.created ∨ Exists server other := by
    rcases Nat.lt_succ_iff_lt_or_eq.mp isThere.1 with below | last
    · right
      refine ⟨below, ?_⟩
      rw [← old below]
      exact isThere.2
    · exact Or.inl last
  have aliveOld {other : Nat} (below : other < server.created) :
      after.Live other ↔ server.Live other := by
    unfold Server.Live
    rw [old below]
    constructor
    · rintro ⟨-, facts⟩
      exact ⟨below, facts⟩
    · rintro ⟨-, facts⟩
      exact ⟨Nat.lt_succ_of_lt below, facts⟩
  have aliveNew : after.Live server.created := by
    unfold Server.Live
    rw [new]
    exact ⟨Nat.lt_succ_self _, rfl, rfl⟩
  have stays {other : Nat} (alive : server.Live other) : after.Live other :=
    (aliveOld alive.1).mpr alive
  have more : after.live = server.live + 1 := by
    have absent :
        server.created ∉ (Finset.range server.created).filter server.Live := by
      intro member
      have below := (Finset.mem_filter.mp member).1
      exact Nat.lt_irrefl _ (Finset.mem_range.mp below)
    have grown :
        (Finset.range after.created).filter after.Live =
          insert server.created
            ((Finset.range server.created).filter server.Live) := by
      ext other
      rw [Finset.mem_insert, Finset.mem_filter, Finset.mem_filter,
        Finset.mem_range, Finset.mem_range]
      constructor
      · rintro ⟨inside, alive⟩
        rcases Nat.lt_succ_iff_lt_or_eq.mp inside with below | last
        · exact Or.inr ⟨below, (aliveOld below).mp alive⟩
        · exact Or.inl last
      · rintro (rfl | ⟨below, alive⟩)
        · exact ⟨Nat.lt_succ_self _, aliveNew⟩
        · exact ⟨Nat.lt_succ_of_lt below, stays alive⟩
    unfold Server.live
    rw [grown, Finset.card_insert_of_notMem absent]
  constructor
  case counted =>
    rw [more, BitVec.ofNat_add, ← sound.counted]
    rfl
  case distinct =>
    intro first second firstExists secondExists same
    rcases newOrOld firstExists with rfl | firstOld
    · rcases newOrOld secondExists with rfl | secondOld
      · rfl
      · rw [new, old secondOld.1] at same
        exact absurd same.symm (unused second secondOld.1 secondOld.2)
    · rcases newOrOld secondExists with rfl | secondOld
      · rw [new, old firstOld.1] at same
        exact absurd same (unused first firstOld.1 firstOld.2)
      · rw [old firstOld.1, old secondOld.1] at same
        exact sound.distinct first second firstOld secondOld same
  case bounded =>
    intro other isThere
    rcases newOrOld isThere with rfl | before
    · rw [new]
      exact small
    · rw [old before.1]
      exact sound.bounded other before
  case reading =>
    intro other same
    exact stays (sound.reading other same)
  case closing =>
    intro other same
    exact stays (sound.closing other same)
  case apart => exact sound.apart
  case started => exact sound.started
  case stopped =>
    intro isStopped
    have before : server.state = .stopGraceful := isStopped
    rw [running] at before
    cases before

/-- `ymo_server_stop_graceful`. -/
theorem Sound.stopGraceful (sound : Sound server) :
    Sound server.ymoServerStopGraceful := by
  constructor
  case counted => exact sound.counted
  case distinct => exact sound.distinct
  case bounded => exact sound.bounded
  case reading => exact sound.reading
  case closing => exact sound.closing
  case apart => exact sound.apart
  case started =>
    intro isStarted
    cases isStarted
  case stopped =>
    intro _
    show (server.broken || server.noConn == 0) = true ↔ server.live = 0
    rw [Bool.or_eq_true, beq_iff_eq, sound.noConn_eq_zero,
      or_iff_right_iff_imp]
    intro broken
    rcases state : server.state with _ | _
    · rw [sound.started state] at broken
      cases broken
    · exact (sound.stopped state).mp broken

end Invariant

/-! ## Steps -/

section Step

variable {server : Server}

/-- Every step that meets the guard keeps the invariant. -/
theorem sound_step (sound : Sound server) (action : Action)
    (guarded : Guard server action) :
    Sound (server.step action) := by
  cases action with
  | accept fd allocated tls init =>
      unfold Server.step
      dsimp only
      split_ifs with possible
      · cases allocated with
        | false => exact sound
        | true =>
            exact
              sound.accept possible.2.1 possible.2.2.2.1
                possible.2.2.2.2 (guarded rfl).1 (guarded rfl).2
      · exact sound
  | established id =>
      unfold Server.step
      dsimp only
      split_ifs
      · exact sound.setState id .tlsEstablished
      · exact sound
  | lost id =>
      unfold Server.step
      dsimp only
      split_ifs with possible
      · apply sound.closeAndFreeConnection possible.2
        rw [possible.1.1]
        exact (Option.some_ne_none id).symm
      · exact sound
  | readBegin id =>
      unfold Server.step
      dsimp only
      split_ifs with possible
      · apply sound.setPlace _ sound.closing
        · intro other _ same
          rw [possible.1.2] at same
          cases same
        · intro other same
          rw [← Option.some.inj same]
          exact possible.2.1
      · exact sound
  | readEnd status =>
      unfold Server.step
      dsimp only
      split
      · exact sound
      · rename_i id reading
        have left : Sound { server with inRead := none } := by
          apply sound.setPlace _ sound.closing
          · intro other same
            cases same
          · intro other same
            cases same
        split_ifs
        · apply left.closeAndFreeConnection (sound.reading id reading)
          exact (Option.some_ne_none id).symm
        · exact left
        · exact sound
  | shutdown id =>
      unfold Server.step
      dsimp only
      split_ifs
      · exact sound.setState id .shutdown
      · exact sound
  | written id status =>
      unfold Server.step
      dsimp only
      split_ifs with possible fails
      · apply sound.closeAndFreeConnection possible.2
        intro reading
        exact guarded reading fails
      · exact sound
      · exact sound
  | idleTimeout id =>
      unfold Server.step
      dsimp only
      split_ifs with possible
      · apply sound.closeAndFreeConnection possible.2
        rw [possible.1.1]
        exact (Option.some_ne_none id).symm
      · exact sound
  | received result =>
      unfold Server.step
      dsimp only
      split
      · exact sound
      · rename_i id closing
        unfold Server.received
        dsimp only
        split_ifs
        · have alive := sound.closing id closing
          have kept := sound.setState id .closed
          apply kept.freeConnection
          · apply (Live.setConn _ _ id).mpr alive
            · rfl
            · rfl
          · intro reading
            exact sound.apart id reading closing
        · exact sound
  | stopGraceful =>
      unfold Server.step
      dsimp only
      split_ifs
      · exact sound.stopGraceful
      · exact sound

theorem sound_initial : Sound Server.initial where
  counted := rfl
  distinct first second firstExists := by cases firstExists.1
  bounded id isThere := by cases isThere.1
  reading id same := by cases same
  closing id same := by cases same
  apart id same := by cases same
  started _ := rfl
  stopped isStopped := by cases isStopped

theorem Sound.accounted (sound : Sound server) : Accounted server :=
  ⟨sound.toNat_noConn, sound.stopped⟩

end Step

/--
In every run in which no connection fails while it is set up, and none is closed
by a write from inside its own read callback, the connections are accounted for.
-/
theorem connections_accounted (actions : List Action)
    (guarded : AllAlong Server.step Guard Server.initial actions) :
    Accounted (run Server.step Server.initial actions) :=
  (invariant_run Sound
    (fun _ action sound condition => sound_step sound action condition)
    sound_initial guarded).accounted

/-- A protocol that is ready at once. -/
def readyInit : ProtoInit where
  data := true
  errno := .okay
  ready := none

/-- Two connections, of which one is lost, and a stop that waits for the other. -/
def twoConnections : List Action :=
  [.accept 5 true .off readyInit, .accept 6 true .handshake readyInit,
    .established 1, .lost 0, .stopGraceful, .idleTimeout 1,
    .received (-1), .received 0]

theorem connections_accounted_twoConnections :
    AllAlong Server.step Guard Server.initial twoConnections ∧
      (run Server.step Server.initial twoConnections).broken = true ∧
        Accounted (run Server.step Server.initial twoConnections) :=
  ⟨by decide, by decide, connections_accounted twoConnections (by decide)⟩

/-- A connection that the protocol does not want. -/
def refusedConnection : List Action :=
  [.accept 5 true .off
      { data := false, errno := .err .enomem, ready := none },
    .received 0]

theorem connections_not_always_accounted :
    ¬∀ actions, Accounted (run Server.step Server.initial actions) := by
  intro accounted
  have counted := (accounted refusedConnection).counted
  revert counted
  decide

end Yimmo.Core.Connections
