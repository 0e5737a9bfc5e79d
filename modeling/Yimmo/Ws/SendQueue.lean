import Yimmo.Lib.LinkedList
import Yimmo.Ws.Session

/-!
# The send queue as a chain of buckets

`send_head` leads through the `next` pointers of the buckets that are queued, and
`send_tail` is where `ymo_ws_session_send_no_check` hangs the next header.  The tail of
the queue is the tail of the payload that was queued last.

This module models the queue with its pointers.  The queue of `Yimmo.Ws.Session`, a
list of buckets and where the tail points, stands for it through every send and write,
also where the tail is not the last bucket of the queue.  The bytes that the head leads
to are what was queued and not sent as long as no payload is `NULL` and no send of a
write callback ends right before an empty bucket with bytes behind it.
-/

namespace Yimmo.Ws.SendQueue

open Yimmo.Core.Net
open Yimmo.Core.StatusCode
open Yimmo.Lib.GuardedRun
open Yimmo.Lib.LinkedList
open Yimmo.Ws.Parse
open Yimmo.Ws.Session

variable
    {pieces : List Nat}
    {payload : Option Nat}
    {head : Option Nat}
    {header : Bytes}
    (outcomes : List SendOutcome)

/-! ## The queue -/

/-- The buckets, by number, and the pointers of the session.  The contents of a bucket
that was not created are arbitrary. -/
structure Queue where
  bucket : Nat → Bucket
  next : Nat → Option Nat
  /-- The next bucket to be created. -/
  fresh : Nat
  sendHead : Option Nat
  sendTail : Option Nat

/-- A session that has sent nothing. -/
def Queue.create (bucket : Nat → Bucket) (next : Nat → Option Nat) :
    Queue where
  bucket := bucket
  next := next
  fresh := 0
  sendHead := none
  sendTail := none

/-- `prev->next` is set, if there is a bucket before the new one. -/
def linkPrev (next : Nat → Option Nat) (node : Nat) :
    Option Nat → Nat → Option Nat
  | none => next
  | some previous => Function.update next previous (some node)

/-- `ymo_bucket_create`. -/
def ymoBucketCreate (queue : Queue) (prev next : Option Nat) (data : Bytes) :
    Queue × Nat :=
  let node := queue.fresh
  ({ queue with
      bucket := Function.update queue.bucket node (Bucket.fresh data)
      next :=
        linkPrev
          (Function.update queue.next node ((prev.bind queue.next).or next))
          node prev
      fresh := node + 1 },
    node)

/-- A payload as an application chains it. -/
def createPayload : Queue → List Bytes → Queue × Option Nat
  | queue, [] => (queue, none)
  | queue, data :: rest =>
      let later := createPayload queue rest
      let created := ymoBucketCreate later.1 none later.2 data
      (created.1, some created.2)

/-- `ymo_bucket_len_all`, if the chain ends within the bound. -/
def ymoBucketLenAll (queue : Queue) : Nat → Option Nat → Option Nat
  | _, none => some 0
  | 0, some _ => none
  | bound + 1, some node =>
      (ymoBucketLenAll queue bound (queue.next node)).map
        ((queue.bucket node).len + ·)

/-- `ymo_bucket_tail`, if the chain ends within the bound. -/
def ymoBucketTail (queue : Queue) : Nat → Option Nat → Option (Option Nat)
  | _, none => some none
  | 0, some _ => none
  | bound + 1, some node =>
      match queue.next node with
      | none => some (some node)
      | some later => ymoBucketTail queue bound (some later)

/-- `ymo_ws_session_send_no_check`, if the loops over the payload end. -/
def ymoWsSessionSendChain (queue : Queue) (flags : UInt8)
    (payload : Option Nat) :
    Option Queue :=
  (ymoBucketLenAll queue queue.fresh payload).bind fun msgLen =>
    let created :=
      ymoBucketCreate queue queue.sendTail payload (genWsMsgHdr flags msgLen)
    let queue := created.1
    (ymoBucketTail queue queue.fresh payload).map fun tail =>
      { queue with
        sendHead := queue.sendHead.or (some created.2)
        sendTail := tail }

/-- The application chains a payload and sends it. -/
def sendPayload (queue : Queue) (sending : Sending) : Option Queue :=
  let payload := createPayload queue sending.payload
  ymoWsSessionSendChain payload.1 sending.flags payload.2

/-- The buckets that `send_head` leads to, if the chain ends. -/
def Queue.nodes (queue : Queue) : Option (List Nat) :=
  match queue.sendHead with
  | none => some []
  | some head => walk queue.next queue.fresh head

/-- The buckets of a chain after `ymo_net_send_buckets`. -/
def writeBack : (Nat → Bucket) → List Nat → List Bucket → Nat → Bucket
  | bucket, node :: nodes, left :: rest =>
      writeBack (Function.update bucket node left) nodes rest
  | bucket, _, _ => bucket

/-- `ymo_proto_ws_write`, with the bytes that were sent; `ymo_net_send_buckets` frees
the buckets it has passed, and `send_head` is the first of the others. -/
def writeQueue (queue : Queue) (outcomes : List SendOutcome) :
    Option (Queue × Bytes) :=
  queue.nodes.map fun nodes =>
    if nodes.isEmpty then (queue, [])
    else
      let result := ymoNetSendBuckets outcomes (nodes.map queue.bucket)
      match result.status with
      | .okay =>
          ({ queue with sendHead := none, sendTail := none }, result.wire)
      | .err _ =>
          let left := nodes.drop (nodes.length - result.chain.length)
          ({ queue with
              bucket := writeBack queue.bucket left result.chain
              sendHead := left.head? },
            result.wire)

/-! ## Chains -/

/-- The buckets that a pointer leads to. -/
structure Chain
    (queue : Queue)
    (head : Option Nat)
    (nodes : List Nat) :
    Prop where
  linked : Linked queue.next head nodes
  known : ∀ node ∈ nodes, node < queue.fresh

/-- No more buckets are in a chain than were created. -/
theorem Chain.length_le {queue : Queue} {nodes : List Nat}
    (chain : Chain queue head nodes) :
    nodes.length ≤ queue.fresh := by
  have within : nodes ⊆ List.range queue.fresh := by
    intro node member
    exact List.mem_range.mpr (chain.known node member)
  have shorter := (chain.linked.nodup.subperm within).length_le
  rw [List.length_range] at shorter
  exact shorter

theorem Chain.nodes_eq {queue : Queue} {nodes : List Nat}
    (chain : Chain queue queue.sendHead nodes) :
    queue.nodes = some nodes := by
  have enough := chain.length_le
  have linked := chain.linked
  rw [Queue.nodes]
  cases head : queue.sendHead with
  | none =>
      rw [head] at linked
      cases linked
      rfl
  | some node =>
      rw [head] at linked
      exact linked.walk enough

theorem ymoBucketLenAll_of_linked {queue : Queue} {nodes : List Nat}
    (linked : Linked queue.next head nodes)
    {bound : Nat}
    (enough : nodes.length ≤ bound) :
    ymoBucketLenAll queue bound head =
      some (nodes.map fun node => (queue.bucket node).len).sum := by
  induction linked generalizing bound with
  | nil =>
      rw [ymoBucketLenAll]
      rfl
  | @cons node rest tail ih =>
      cases bound with
      | zero => nomatch enough
      | succ bound =>
          rw [ymoBucketLenAll, ih (Nat.le_of_succ_le_succ enough)]
          rfl

theorem ymoBucketTail_of_linked {queue : Queue} {nodes : List Nat}
    (linked : Linked queue.next head nodes)
    {bound : Nat}
    (enough : nodes.length ≤ bound) :
    ymoBucketTail queue bound head = some nodes.getLast? := by
  induction linked generalizing bound with
  | nil =>
      rw [ymoBucketTail]
      rfl
  | @cons node rest tail ih =>
      cases bound with
      | zero => nomatch enough
      | succ bound =>
          have later := ih (Nat.le_of_succ_le_succ enough)
          rw [ymoBucketTail]
          cases successor : queue.next node with
          | none =>
              rw [successor] at tail
              cases tail
              rfl
          | some next =>
              rw [successor] at tail later
              rcases tail.of_some with ⟨others, rfl, -⟩
              rw [List.getLast?_cons_cons]
              exact later

/-- A payload was chained from new buckets. -/
structure Payload
    (before after : Queue)
    (head : Option Nat)
    (nodes : List Nat)
    (payload : List Bytes) :
    Prop where
  grows : before.fresh ≤ after.fresh
  chain : Chain after head nodes
  new : ∀ node ∈ nodes, before.fresh ≤ node
  contents : nodes.map after.bucket = payload.map Bucket.fresh
  bucket : ∀ node, node < before.fresh → after.bucket node = before.bucket node
  next : ∀ node, node < before.fresh → after.next node = before.next node
  sendHead : after.sendHead = before.sendHead
  sendTail : after.sendTail = before.sendTail

theorem payload_createPayload (queue : Queue) (payload : List Bytes) :
    ∃ nodes,
      Payload queue (createPayload queue payload).1
        (createPayload queue payload).2 nodes payload := by
  induction payload with
  | nil =>
      exact
        ⟨[], Nat.le_refl _, ⟨.nil, by rintro node ⟨⟩⟩,
          by rintro node ⟨⟩, rfl, fun _ _ => rfl, fun _ _ => rfl, rfl,
          rfl⟩
  | cons data rest ih =>
      rcases ih with ⟨nodes, chained⟩
      rw [createPayload]
      generalize createPayload queue rest = later at chained ⊢
      have new : later.1.fresh ∉ nodes :=
        fun member => Nat.lt_irrefl _ (chained.chain.known _ member)
      have other : ∀ node, node < queue.fresh → node ≠ later.1.fresh := by
        intro node old same
        exact Nat.lt_irrefl _ (Nat.lt_of_lt_of_le (same ▸ old) chained.grows)
      refine ⟨later.1.fresh :: nodes, ?_⟩
      refine
        { grows := Nat.le_succ_of_le chained.grows
          chain := ⟨?_, ?_⟩
          new := ?_
          contents := ?_
          bucket := ?_
          next := ?_
          sendHead := chained.sendHead
          sendTail := chained.sendTail }
      · apply Linked.cons
        show
          Linked (Function.update later.1.next later.1.fresh later.2)
            (Function.update later.1.next later.1.fresh later.2 later.1.fresh)
            nodes
        rw [Function.update_self]
        refine chained.chain.linked.congr ?_
        intro node member
        have different : node ≠ later.1.fresh :=
          fun same => new (same ▸ member)
        rw [Function.update_of_ne different]
      · intro node member
        rcases List.mem_cons.mp member with rfl | early
        · exact Nat.lt_succ_self _
        · exact Nat.lt_succ_of_lt (chained.chain.known node early)
      · intro node member
        rcases List.mem_cons.mp member with rfl | early
        · exact chained.grows
        · exact chained.new node early
      · show
          Function.update later.1.bucket later.1.fresh (Bucket.fresh data)
                later.1.fresh ::
              nodes.map
                (Function.update later.1.bucket later.1.fresh
                  (Bucket.fresh data)) =
            Bucket.fresh data :: rest.map Bucket.fresh
        rw [Function.update_self, ← chained.contents]
        congr 1
        apply List.map_congr_left
        intro node member
        have different : node ≠ later.1.fresh :=
          fun same => new (same ▸ member)
        rw [Function.update_of_ne different]
      · intro node old
        show
          Function.update later.1.bucket later.1.fresh (Bucket.fresh data)
              node =
            _
        rw [Function.update_of_ne (other node old)]
        exact chained.bucket node old
      · intro node old
        show Function.update later.1.next later.1.fresh later.2 node = _
        rw [Function.update_of_ne (other node old)]
        exact chained.next node old

/-! ## The queue as a list -/

/-- The list of buckets, and where the tail points, as a session keeps them. -/
structure ListQueue where
  list : List Bucket
  tail : SendTail

/-- The chain of a frame. -/
def frameChain (sending : Sending) : List Bucket :=
  Bucket.fresh
      (genWsMsgHdr sending.flags sending.payload.flatten.length) ::
    sending.payload.map Bucket.fresh

/-- A send. -/
def ListQueue.send (queue : ListQueue) (sending : Sending) : ListQueue where
  list :=
    if queue.list.isEmpty then frameChain sending
    else if queue.tail = .last then queue.list ++ frameChain sending
    else queue.list
  tail :=
    if sending.payload.isEmpty then .null
    else if queue.list.isEmpty ∨ queue.tail = .last then .last
    else .detached

/-- A call of the write callback. -/
def ListQueue.write (queue : ListQueue) (outcomes : List SendOutcome) :
    ListQueue :=
  if queue.list.isEmpty then queue
  else
    let result := ymoNetSendBuckets outcomes queue.list
    match result.status with
    | .okay => { list := [], tail := .null }
    | .err _ => { queue with list := result.chain }

/-- The queue of a session. -/
def sessionQueue {App : Type} (endpoint : Endpoint App) : ListQueue where
  list := endpoint.session.sendList
  tail := endpoint.session.sendTail

/-- Where the tail points. -/
def TailAt (queue : Queue) (nodes : List Nat) : SendTail → Prop
  | .null => queue.sendTail = none
  | .last => ∃ node, queue.sendTail = some node ∧ nodes.getLast? = some node
  | .detached =>
      ∃ node,
        queue.sendTail = some node ∧ node < queue.fresh ∧
          node ∉ nodes ∧ queue.next node = none

/-- The chain stands for the list. -/
structure Shows
    (queue : Queue)
    (nodes : List Nat)
    (listed : ListQueue) :
    Prop where
  chain : Chain queue queue.sendHead nodes
  contents : nodes.map queue.bucket = listed.list
  tail : TailAt queue nodes listed.tail
  empty : listed.list = [] → listed.tail = .null

variable {listed : ListQueue}

/-- New buckets change nothing in the queue. -/
theorem Shows.of_payload {before after : Queue} {payload : List Bytes}
    (chained : Payload before after head pieces payload)
    {nodes : List Nat}
    (holds : Shows before nodes listed) :
    Shows after nodes listed where
  chain := by
    refine ⟨?_, ?_⟩
    · rw [chained.sendHead]
      refine holds.chain.linked.congr ?_
      intro node member
      exact chained.next node (holds.chain.known node member)
    · intro node member
      exact Nat.lt_of_lt_of_le (holds.chain.known node member) chained.grows
  contents := by
    rw [← holds.contents]
    apply List.map_congr_left
    intro node member
    exact chained.bucket node (holds.chain.known node member)
  tail := by
    have tail := holds.tail
    revert tail
    cases listed.tail with
    | null =>
        intro tail
        exact chained.sendTail.trans tail
    | last =>
        rintro ⟨node, points, isLast⟩
        exact ⟨node, chained.sendTail.trans points, isLast⟩
    | detached =>
        rintro ⟨node, points, known, outside, ends⟩
        exact
          ⟨node, chained.sendTail.trans points,
            Nat.lt_of_lt_of_le known chained.grows, outside,
            (chained.next node known).trans ends⟩
  empty := holds.empty

/-- The header of a frame is created between a bucket that ends a chain, if there is
one, and the payload. -/
structure Headed
    (queue : Queue)
    (prev payload : Option Nat)
    (pieces : List Nat)
    (data : Bytes)
    (created : Queue × Nat) :
    Prop where
  node : created.2 = queue.fresh
  head : Linked created.1.next (some queue.fresh) (queue.fresh :: pieces)
  link : ∀ node, prev = some node → created.1.next node = some queue.fresh
  next :
    ∀ node,
      node ≠ queue.fresh →
        prev ≠ some node → created.1.next node = queue.next node
  header : created.1.bucket queue.fresh = Bucket.fresh data
  bucket :
    ∀ node, node ≠ queue.fresh → created.1.bucket node = queue.bucket node
  fresh : created.1.fresh = queue.fresh + 1

theorem headed_ymoBucketCreate {queue : Queue} {prev payload : Option Nat}
    (chain : Chain queue payload pieces)
    (ends :
      ∀ node,
        prev = some node →
          queue.next node = none ∧ node < queue.fresh ∧ node ∉ pieces)
    (data : Bytes) :
    Headed queue prev payload pieces data
      (ymoBucketCreate queue prev payload data) := by
  have new : queue.fresh ∉ pieces :=
    fun member => Nat.lt_irrefl _ (chain.known _ member)
  have successor : (prev.bind queue.next).or payload = payload := by
    cases prev with
    | none => rfl
    | some node =>
        show (queue.next node).or payload = payload
        rw [(ends node rfl).1]
        rfl
  have links :
      ∀ node,
        prev ≠ some node →
          (ymoBucketCreate queue prev payload data).1.next node =
            Function.update queue.next queue.fresh payload node := by
    intro node other
    show
      linkPrev
          (Function.update queue.next queue.fresh
            ((prev.bind queue.next).or payload))
          queue.fresh prev node =
        _
    rw [successor]
    cases prev with
    | none => rfl
    | some previous =>
        have different : node ≠ previous := fun same => other (same ▸ rfl)
        rw [linkPrev, Function.update_of_ne different]
  have before : ∀ node ∈ queue.fresh :: pieces, prev ≠ some node := by
    intro node member same
    rcases ends node same with ⟨-, known, outside⟩
    rcases List.mem_cons.mp member with rfl | later
    · exact Nat.lt_irrefl _ known
    · exact outside later
  refine
    { node := rfl
      head := ?_
      link := ?_
      next := ?_
      header := Function.update_self ..
      bucket := fun node different => Function.update_of_ne different ..
      fresh := rfl }
  · apply Linked.cons
    rw [links _ (before _ (List.mem_cons_self ..)), Function.update_self]
    refine chain.linked.congr ?_
    intro node member
    have different : node ≠ queue.fresh := fun same => new (same ▸ member)
    rw [links node (before node (List.mem_cons_of_mem _ member)),
      Function.update_of_ne different]
  · intro node points
    rw [points]
    exact Function.update_self ..
  · intro node different other
    rw [links node other, Function.update_of_ne different]

/-- The length in the header is that of the payload. -/
theorem sum_len_payload {before after : Queue} {payload : List Bytes}
    (chained : Payload before after head pieces payload) :
    (pieces.map fun node => (after.bucket node).len).sum =
      payload.flatten.length := by
  have lengths :
      (pieces.map after.bucket).map Bucket.len = payload.map List.length := by
    rw [chained.contents, List.map_map]
    rfl
  rw [List.length_flatten, ← lengths, List.map_map]
  rfl

/-- What a send leaves. -/
structure Sent
    (queue : Queue)
    (payload : Option Nat)
    (pieces : List Nat)
    (data : Bytes)
    (after : Queue) :
    Prop where
  headed :
    Headed queue queue.sendTail payload pieces data
      ({ after with sendHead := none, sendTail := none }, queue.fresh)
  sendHead : after.sendHead = queue.sendHead.or (some queue.fresh)
  sendTail : after.sendTail = pieces.getLast?

theorem exists_sent {before queue : Queue} {sending : Sending}
    (chained : Payload before queue payload pieces sending.payload)
    (ends :
      ∀ node,
        queue.sendTail = some node →
          queue.next node = none ∧ node < queue.fresh ∧ node ∉ pieces) :
    ∃ after,
      ymoWsSessionSendChain queue sending.flags payload = some after ∧
        Sent queue payload pieces
          (genWsMsgHdr sending.flags sending.payload.flatten.length)
          after := by
  have enough := chained.chain.length_le
  have headed :=
    headed_ymoBucketCreate chained.chain ends
      (genWsMsgHdr sending.flags sending.payload.flatten.length)
  have still :
      Linked
        (ymoBucketCreate queue queue.sendTail payload
          (genWsMsgHdr sending.flags sending.payload.flatten.length)).1.next
        payload pieces := by
    refine chained.chain.linked.congr ?_
    intro node member
    refine headed.next node ?_ ?_
    · intro same
      exact Nat.lt_irrefl _ (same ▸ chained.chain.known node member)
    · intro points
      exact (ends node points).2.2 member
  rw [ymoWsSessionSendChain,
    ymoBucketLenAll_of_linked chained.chain.linked enough,
    sum_len_payload chained, Option.bind_some]
  dsimp only
  have more :
      pieces.length ≤
        (ymoBucketCreate queue queue.sendTail payload
          (genWsMsgHdr sending.flags
            sending.payload.flatten.length)).1.fresh :=
    Nat.le_succ_of_le enough
  rw [ymoBucketTail_of_linked still more]
  exact
    ⟨_, rfl,
      { headed :=
          { node := rfl
            head := headed.head
            link := headed.link
            next := headed.next
            header := headed.header
            bucket := headed.bucket
            fresh := headed.fresh }
        sendHead := rfl
        sendTail := rfl }⟩

/-- The tail ends a chain that no new bucket is in. -/
theorem Shows.tail_ends {before queue : Queue} {data : List Bytes}
    (chained : Payload before queue payload pieces data)
    {nodes : List Nat}
    (holds : Shows before nodes listed) :
    ∀ node,
      queue.sendTail = some node →
        queue.next node = none ∧ node < queue.fresh ∧ node ∉ pieces := by
  intro node points
  rw [chained.sendTail] at points
  have old : before.next node = none ∧ node < before.fresh := by
    have tail := holds.tail
    revert tail
    cases listed.tail with
    | null =>
        intro absent
        cases absent.symm.trans points
    | last =>
        rintro ⟨last, pointsLast, isLast⟩
        cases pointsLast.symm.trans points
        exact
          ⟨holds.chain.linked.next_last isLast,
            holds.chain.known _ (List.mem_of_getLast? isLast)⟩
    | detached =>
        rintro ⟨last, pointsLast, known, -, ends⟩
        cases pointsLast.symm.trans points
        exact ⟨ends, known⟩
  refine ⟨(chained.next node old.2).trans old.1, ?_, ?_⟩
  · exact Nat.lt_of_lt_of_le old.2 chained.grows
  · intro member
    exact Nat.lt_irrefl _ (Nat.lt_of_lt_of_le old.2 (chained.new node member))

variable {after : Queue}

theorem Sent.contents {before queue : Queue} {sending : Sending}
    (chained : Payload before queue payload pieces sending.payload)
    (sent :
      Sent queue payload pieces
        (genWsMsgHdr sending.flags sending.payload.flatten.length)
        after) :
    (queue.fresh :: pieces).map after.bucket = frameChain sending := by
  have header := sent.headed.header
  rw [List.map_cons, frameChain, ← chained.contents]
  refine congrArg₂ List.cons header ?_
  apply List.map_congr_left
  intro node member
  refine sent.headed.bucket node ?_
  intro same
  exact Nat.lt_irrefl _ (same ▸ chained.chain.known node member)

/-- The new chain is known. -/
theorem Sent.known {before queue : Queue} {data : List Bytes}
    (chained : Payload before queue payload pieces data)
    (sent : Sent queue payload pieces header after) :
    ∀ node ∈ queue.fresh :: pieces, node < after.fresh := by
  have fresh : after.fresh = queue.fresh + 1 := sent.headed.fresh
  intro node member
  rw [fresh]
  rcases List.mem_cons.mp member with rfl | later
  · exact Nat.lt_succ_self _
  · exact Nat.lt_succ_of_lt (chained.chain.known node later)

/-- The tail of the payload is the tail of the queue where the frame is behind it. -/
theorem Sent.tail {before queue : Queue} {data : List Bytes}
    (chained : Payload before queue payload pieces data)
    (sent : Sent queue payload pieces header after)
    (front : List Nat) :
    TailAt after (front ++ queue.fresh :: pieces)
      (if data.isEmpty then .null else .last) := by
  have lengths := congrArg List.length chained.contents
  rw [List.length_map, List.length_map] at lengths
  have sendTail := sent.sendTail
  cases data with
  | nil =>
      have none' : pieces = [] := List.eq_nil_of_length_eq_zero lengths
      rw [none'] at sendTail
      exact sendTail
  | cons first rest =>
      cases pieces with
      | nil => nomatch lengths
      | cons piece others =>
          refine ⟨(piece :: others).getLast (List.cons_ne_nil _ _), ?_, ?_⟩
          · rw [sendTail, List.getLast?_eq_getLast_of_ne_nil]
          · rw [List.getLast?_append_of_ne_nil _ (List.cons_ne_nil _ _),
              List.getLast?_cons_cons,
              List.getLast?_eq_getLast_of_ne_nil]

/-- Buckets that were there keep what they hold. -/
theorem Sent.earlier {before queue : Queue} {data : List Bytes}
    (chained : Payload before queue payload pieces data)
    (sent : Sent queue payload pieces header after)
    {nodes : List Nat}
    (holds : Shows before nodes listed) :
    nodes.map after.bucket = listed.list ∧
      ∀ node ∈ nodes, node < queue.fresh ∧ node ∉ queue.fresh :: pieces := by
  have old :
      ∀ node ∈ nodes, node < queue.fresh ∧ node ∉ queue.fresh :: pieces := by
    intro node member
    have known := holds.chain.known node member
    have earlier := Nat.lt_of_lt_of_le known chained.grows
    refine ⟨earlier, ?_⟩
    intro again
    rcases List.mem_cons.mp again with same | later
    · exact Nat.lt_irrefl _ (same ▸ earlier)
    · exact Nat.lt_irrefl _ (Nat.lt_of_lt_of_le known (chained.new node later))
  refine ⟨?_, old⟩
  rw [← holds.contents]
  apply List.map_congr_left
  intro node member
  rw [← chained.bucket node (holds.chain.known node member)]
  exact sent.headed.bucket node (Nat.ne_of_lt (old node member).1)

/-- The frame is hung on the last bucket of the queue. -/
theorem Sent.hung {queue : Queue}
    (sent : Sent queue payload pieces header after)
    {last : Nat}
    (points : queue.sendTail = some last)
    {nodes : List Nat}
    (isLast : nodes.getLast? = some last)
    (linked : Linked queue.next head nodes)
    (old : ∀ node ∈ nodes, node < queue.fresh ∧ node ∉ queue.fresh :: pieces) :
    Linked after.next head (nodes ++ queue.fresh :: pieces) := by
  have apart : last ∉ queue.fresh :: pieces :=
    (old last (List.mem_of_getLast? isLast)).2
  have front : Linked (Function.update after.next last none) head nodes := by
    refine linked.congr ?_
    intro node member
    by_cases same : node = last
    · rw [same, Function.update_self, linked.next_last isLast]
    · rw [Function.update_of_ne same]
      refine sent.headed.next node (Nat.ne_of_lt (old node member).1) ?_
      intro points'
      cases points.symm.trans points'
      exact same rfl
  have back :
      Linked (Function.update after.next last none) (some queue.fresh)
        (queue.fresh :: pieces) := by
    refine sent.headed.head.congr ?_
    intro node member
    have different : node ≠ last := fun same => apart (same ▸ member)
    rw [Function.update_of_ne different]
  have whole := front.append isLast back apart
  have link : after.next last = some queue.fresh :=
    sent.headed.link last points
  rw [Function.update_idem, ← link, Function.update_eq_self] at whole
  exact whole

/-- The frame is hung on a bucket that the head does not lead to. -/
theorem Sent.detached {before queue : Queue} {data : List Bytes}
    (chained : Payload before queue payload pieces data)
    (sent : Sent queue payload pieces header after)
    {nodes : List Nat}
    (old : ∀ node ∈ nodes, node < queue.fresh ∧ node ∉ queue.fresh :: pieces) :
    TailAt after nodes (if data.isEmpty then .null else .detached) := by
  have tail := sent.tail chained []
  cases data with
  | nil => exact tail
  | cons first rest =>
      rcases tail with ⟨last, points, isLast⟩
      have member := List.mem_of_getLast? isLast
      refine
        ⟨last, points, sent.known chained last member, ?_,
          sent.headed.head.next_last isLast⟩
      intro within
      exact (old last within).2 member

/-- A send does to the pointers what it does to the list. -/
theorem shows_send {queue : Queue} {nodes : List Nat}
    (holds : Shows queue nodes listed)
    (sending : Sending) :
    ∃ after later,
      sendPayload queue sending = some after ∧
        Shows after later (listed.send sending) := by
  rcases payload_createPayload queue sending.payload with
    ⟨pieces, chained⟩
  rw [sendPayload]
  generalize createPayload queue sending.payload = made at chained
  rcases made with ⟨middle, payload⟩
  dsimp only at chained ⊢
  rcases exists_sent chained (holds.tail_ends chained) with
    ⟨after, called, sent⟩
  rcases sent.earlier chained holds with ⟨contents, old⟩
  have known := sent.known chained
  have grown : ∀ node ∈ nodes, node < after.fresh := by
    intro node member
    have fresh : after.fresh = middle.fresh + 1 := sent.headed.fresh
    rw [fresh]
    exact Nat.lt_succ_of_lt (old node member).1
  have still := (holds.of_payload chained).chain.linked
  rw [chained.sendHead] at still
  refine ⟨after, ?_⟩
  by_cases nothing : listed.list = []
  · -- The head is `NULL`: the frame is the queue.
    have none' : nodes = [] := by
      rw [← holds.contents, List.map_eq_nil_iff] at nothing
      exact nothing
    have head : queue.sendHead = none := by
      rw [none'] at still
      cases still' : queue.sendHead with
      | none => rfl
      | some node =>
          rw [still'] at still
          nomatch still
    refine ⟨middle.fresh :: pieces, called, ?_⟩
    have empty : listed.list.isEmpty = true := List.isEmpty_iff.mpr nothing
    refine
      { chain := ⟨?_, known⟩
        contents := ?_
        tail := ?_
        empty := ?_ }
    · rw [sent.sendHead, chained.sendHead, head]
      exact sent.headed.head
    · rw [ListQueue.send, if_pos empty]
      exact sent.contents chained
    · rw [ListQueue.send, if_pos (Or.inl empty)]
      exact sent.tail chained []
    · rw [ListQueue.send, if_pos empty]
      intro absurdity
      cases absurdity
  · have empty : ¬listed.list.isEmpty = true :=
      fun all => nothing (List.isEmpty_iff.mp all)
    have head : ∃ node, queue.sendHead = some node := by
      cases head : queue.sendHead with
      | none =>
          have linked := holds.chain.linked
          rw [head] at linked
          cases linked
          exact absurd holds.contents.symm nothing
      | some node => exact ⟨node, rfl⟩
    rcases head with ⟨first, head⟩
    have sendHead : after.sendHead = queue.sendHead := by
      rw [sent.sendHead, chained.sendHead, head]
      rfl
    by_cases atLast : listed.tail = .last
    · -- The frame is hung on the last bucket.
      have tail := holds.tail
      rw [atLast] at tail
      rcases tail with ⟨last, points, isLast⟩
      have points' : middle.sendTail = some last :=
        chained.sendTail.trans points
      refine ⟨nodes ++ middle.fresh :: pieces, called, ?_⟩
      refine
        { chain := ⟨?_, ?_⟩
          contents := ?_
          tail := ?_
          empty := ?_ }
      · rw [sendHead]
        exact sent.hung points' isLast still old
      · intro node member
        rcases List.mem_append.mp member with early | new
        · exact grown node early
        · exact known node new
      · rw [ListQueue.send, if_neg empty, if_pos atLast, List.map_append,
          contents, sent.contents chained]
      · rw [ListQueue.send, if_pos (Or.inr atLast)]
        exact sent.tail chained nodes
      · rw [ListQueue.send, if_neg empty, if_pos atLast]
        intro absurdity
        exact absurd (List.append_eq_nil_iff.mp absurdity).1 nothing
    · -- The frame is hung elsewhere, and the head does not lead to it.
      have outside : ∀ node ∈ nodes, middle.sendTail ≠ some node := by
        intro node member points
        rw [chained.sendTail] at points
        have tail := holds.tail
        revert tail
        cases where' : listed.tail with
        | null =>
            intro absent
            cases absent.symm.trans points
        | last => exact absurd where' atLast
        | detached =>
            rintro ⟨other, pointsOther, -, outside, -⟩
            cases pointsOther.symm.trans points
            exact outside member
      refine ⟨nodes, called, ?_⟩
      refine
        { chain := ⟨?_, grown⟩
          contents := ?_
          tail := ?_
          empty := ?_ }
      · rw [sendHead]
        refine still.congr ?_
        intro node member
        exact
          sent.headed.next node (Nat.ne_of_lt (old node member).1)
            (outside node member)
      · rw [contents, ListQueue.send, if_neg empty, if_neg atLast]
      · rw [ListQueue.send, if_neg (not_or.mpr ⟨empty, atLast⟩)]
        exact sent.detached chained old
      · rw [ListQueue.send, if_neg empty, if_neg atLast]
        intro absurdity
        exact absurd absurdity nothing

/-! ## What a write leaves -/

theorem length_account_le (count : Nat) (chain : List Bucket) :
    (account count chain).length ≤ chain.length := by
  induction chain generalizing count with
  | nil =>
      cases count with
      | zero => exact Nat.le_refl _
      | succ count => exact Nat.le_refl _
  | cons bucket rest ih =>
      cases count with
      | zero => rw [account_zero]
      | succ count =>
          rw [account]
          split
          · exact Nat.le_refl _
          · exact Nat.le_succ_of_le (ih _)

/-- A chain gets no longer, and one that is still to be sent has a bucket. -/
theorem ymoNetSendBuckets_left (chain : List Bucket) :
    (ymoNetSendBuckets outcomes chain).chain.length ≤ chain.length ∧
      (chain ≠ [] →
        (ymoNetSendBuckets outcomes chain).status ≠ .okay →
          (ymoNetSendBuckets outcomes chain).chain ≠ []) := by
  induction outcomes generalizing chain with
  | nil =>
      unfold ymoNetSendBuckets
      split
      · exact ⟨Nat.le_refl _, fun some' _ => some'⟩
      · exact ⟨Nat.le_refl _, fun some' _ => some'⟩
  | cons outcome outcomes ih =>
      unfold ymoNetSendBuckets
      split
      · exact ⟨Nat.le_refl _, fun some' _ => some'⟩
      · cases outcome with
        | blocked => exact ⟨Nat.le_refl _, fun some' _ => some'⟩
        | failed errno => exact ⟨Nat.le_refl _, fun some' _ => some'⟩
        | accepted room =>
            dsimp only
            have shorter :=
              length_account_le (min (room + 1) (offered chain).length) chain
            split
            · next pending =>
                rcases
                  ih
                    (account (min (room + 1) (offered chain).length)
                      chain) with
                  ⟨within, left⟩
                refine ⟨within.trans shorter, ?_⟩
                intro _
                refine left ?_
                intro none'
                rw [none'] at pending
                cases pending
            · refine ⟨shorter, ?_⟩
              intro _ absurdity
              exact absurd rfl absurdity

theorem writeBack_other (bucket : Nat → Bucket) {nodes : List Nat}
    (left : List Bucket)
    {node : Nat}
    (outside : node ∉ nodes) :
    writeBack bucket nodes left node = bucket node := by
  induction nodes generalizing bucket left with
  | nil =>
      rw [writeBack]
      intro _ _ _ _ absurdity
      cases absurdity
  | cons first rest ih =>
      cases left with
      | nil => rfl
      | cons value values =>
          have different : node ≠ first :=
            fun same => outside (same ▸ List.mem_cons_self ..)
          rw [writeBack,
            ih _ _ (fun later => outside (List.mem_cons_of_mem _ later)),
            Function.update_of_ne different]

theorem map_writeBack (bucket : Nat → Bucket) {nodes : List Nat}
    {left : List Bucket}
    (distinct : nodes.Nodup)
    (same : nodes.length = left.length) :
    nodes.map (writeBack bucket nodes left) = left := by
  induction nodes generalizing bucket left with
  | nil =>
      rw [List.eq_nil_of_length_eq_zero same.symm]
      rfl
  | cons first rest ih =>
      cases left with
      | nil => nomatch same
      | cons value values =>
          rcases List.nodup_cons.mp distinct with ⟨outside, others⟩
          rw [List.map_cons, writeBack, writeBack_other _ _ outside,
            Function.update_self,
            ih _ others (Nat.succ.inj same)]

/-- What a write hands to the socket. -/
def ListQueue.wire (queue : ListQueue) (outcomes : List SendOutcome) : Bytes :=
  if queue.list.isEmpty then []
  else (ymoNetSendBuckets outcomes queue.list).wire

/-- A write does to the pointers what it does to the list. -/
theorem shows_write {queue : Queue} {nodes : List Nat}
    (holds : Shows queue nodes listed)
    (outcomes : List SendOutcome) :
    ∃ after later,
      writeQueue queue outcomes = some (after, listed.wire outcomes) ∧
        Shows after later (listed.write outcomes) := by
  rw [writeQueue, holds.chain.nodes_eq, Option.map_some,
    holds.contents, ListQueue.wire, ListQueue.write]
  have lengths := congrArg List.length holds.contents
  rw [List.length_map] at lengths
  by_cases nothing : nodes = []
  · have empty : listed.list.isEmpty = true := by
      rw [← holds.contents, nothing]
      rfl
    rw [nothing, if_pos empty, if_pos empty]
    exact ⟨queue, [], rfl, nothing ▸ holds⟩
  · have some' : listed.list ≠ [] := by
      intro none'
      rw [none'] at lengths
      exact nothing (List.eq_nil_of_length_eq_zero lengths)
    have full : ¬listed.list.isEmpty = true :=
      fun all => some' (List.isEmpty_iff.mp all)
    have nodesFull : ¬nodes.isEmpty = true :=
      fun all => nothing (List.isEmpty_iff.mp all)
    rcases ymoNetSendBuckets_left outcomes listed.list with
      ⟨shorter, left⟩
    rw [if_neg nodesFull, if_neg full, if_neg full]
    generalize ymoNetSendBuckets outcomes listed.list = result
      at shorter left ⊢
    dsimp only
    cases status : result.status with
    | okay =>
        refine ⟨_, [], rfl, ⟨⟨.nil, ?_⟩, rfl, rfl, fun _ => rfl⟩⟩
        rintro node ⟨⟩
    | err errno =>
        have pending : result.chain ≠ [] := by
          refine left some' ?_
          rw [status]
          exact Status.noConfusion
        have positive := List.length_pos_of_ne_nil pending
        have measured :
            (nodes.drop (nodes.length - result.chain.length)).length =
              result.chain.length := by
          rw [List.length_drop]
          omega
        refine ⟨_, nodes.drop (nodes.length - result.chain.length), rfl, ?_⟩
        refine
          { chain := ⟨?_, ?_⟩
            contents := ?_
            tail := ?_
            empty := fun none' => absurd none' pending }
        · exact holds.chain.linked.drop _
        · intro node member
          exact holds.chain.known node (List.mem_of_mem_drop member)
        · exact map_writeBack _ (holds.chain.linked.drop _).nodup measured
        · have tail := holds.tail
          revert tail
          cases listed.tail with
          | null => exact id
          | last =>
              rintro ⟨node, points, isLast⟩
              refine ⟨node, points, ?_⟩
              rw [List.getLast?_drop, if_neg (by omega)]
              exact isLast
          | detached =>
              rintro ⟨node, points, known, outside, ends⟩
              exact
                ⟨node, points, known,
                  fun member => outside (List.mem_of_mem_drop member),
                  ends⟩

/-! ## Sends that end before an empty bucket -/

/-- A send of some bytes ends right before an empty bucket with bytes behind it. -/
def EndsBeforeEmpty (count : Nat) (chain : List Bucket) : Prop :=
  ∃ front last bucket back,
    chain = front ++ last :: bucket :: back ∧
      last.unsent ≠ [] ∧
        (unsentAll (front ++ [last])).length = count ∧
          bucket.len = 0 ∧ unsentAll back ≠ []

/-- No send of a write callback does so. -/
def SendsClean : List SendOutcome → List Bucket → Prop
  | .accepted room :: outcomes, chain =>
      ¬EndsBeforeEmpty (min (room + 1) (offered chain).length) chain ∧
        SendsClean outcomes
          (account (min (room + 1) (offered chain).length) chain)
  | _, _ => True

theorem not_endsBeforeEmpty_zero (chain : List Bucket) :
    ¬EndsBeforeEmpty 0 chain := by
  rintro ⟨front, last, bucket, back, -, pending, measured, -, -⟩
  rw [unsentAll_append, unsentAll_cons, unsentAll_nil, List.append_nil,
    List.length_append] at measured
  have positive := List.length_pos_of_ne_nil pending
  omega

/-- Accounting for the bytes of some buckets leaves the others. -/
theorem account_front {last : Bucket} (pending : last.unsent ≠ [])
    (front rest : List Bucket) :
    account (unsentAll (front ++ [last])).length (front ++ last :: rest) =
      rest := by
  have positive := List.length_pos_of_ne_nil pending
  induction front with
  | nil =>
      rw [List.nil_append, unsentAll_cons, unsentAll_nil, List.append_nil]
      cases measured : last.unsent.length with
      | zero => omega
      | succ count =>
          rw [Bucket.length_unsent] at measured
          rw [List.nil_append, account, dif_neg (by omega), measured,
            Nat.sub_self, account_zero]
  | cons bucket front ih =>
      rw [List.cons_append, unsentAll_cons, List.length_append,
        Bucket.length_unsent]
      cases measured : bucket.remain + (unsentAll (front ++ [last])).length
        with
      | zero =>
          rw [unsentAll_append, unsentAll_cons, unsentAll_nil,
            List.append_nil, List.length_append] at measured
          omega
      | succ count =>
          rw [List.cons_append, account, dif_neg (by omega), ← measured,
            Nat.add_sub_cancel_left]
          exact ih

theorem endsBeforeEmpty_iff {count : Nat} (positive : 0 < count)
    (chain : List Bucket) :
    EndsBeforeEmpty count chain ↔
      ∃ bucket back,
        account count chain = bucket :: back ∧
          bucket.len = 0 ∧ unsentAll back ≠ [] := by
  constructor
  · rintro ⟨front, last, bucket, back, rfl, pending, rfl, empty, more⟩
    exact
      ⟨bucket, back, account_front pending front (bucket :: back), empty, more⟩
  · rintro ⟨bucket, back, left, empty, more⟩
    induction chain generalizing count with
    | nil =>
        cases count with
        | zero => cases left
        | succ count => cases left
    | cons first rest ih =>
        cases count with
        | zero => exact absurd positive (Nat.lt_irrefl 0)
        | succ count =>
            rw [account] at left
            split at left
            · next inside =>
                rcases List.cons.inj left with ⟨rfl, -⟩
                have len : first.len = 0 := empty
                rw [Bucket.remain, len] at inside
                omega
            · next outside =>
                rcases
                  Nat.eq_zero_or_pos (count + 1 - first.remain) with
                  whole | beyond
                · rw [whole, account_zero] at left
                  refine
                    ⟨[], first, bucket, back, by rw [left]; rfl, ?_, ?_,
                      empty, more⟩
                  · intro spent
                    have zero := (Bucket.remain_eq_zero_iff first).mpr spent
                    omega
                  · rw [List.nil_append, unsentAll_cons, unsentAll_nil,
                      List.append_nil, Bucket.length_unsent]
                    omega
                · rcases ih beyond left with
                    ⟨front, last, found, others, split, pending,
                      measured, empty', more'⟩
                  refine
                    ⟨first :: front, last, found, others,
                      by rw [split]; rfl, pending, ?_, empty', more'⟩
                  rw [List.cons_append, unsentAll_cons,
                    List.length_append, measured, Bucket.length_unsent]
                  omega

/-- Nothing is offered, and the call fails. -/
theorem status_of_offered_nil {chain : List Bucket}
    (nothing : offered chain = []) :
    (ymoNetSendBuckets outcomes chain).status = .err .ebadmsg := by
  cases outcomes with
  | nil =>
      unfold ymoNetSendBuckets
      rw [if_pos nothing]
  | cons outcome outcomes =>
      unfold ymoNetSendBuckets
      rw [if_pos nothing]

theorem offered_eq_nil {chain : List Bucket} (all : unsentAll chain = []) :
    offered chain = [] := by
  have isPrefix := offered_isPrefix chain
  rw [all] at isPrefix
  exact List.prefix_nil.mp isPrefix

/-- The callback reports that all was sent just where it was. -/
theorem sendsClean_iff (chain : List Bucket) :
    SendsClean outcomes chain ↔
      ((ymoNetSendBuckets outcomes chain).status = .okay →
        unsentAll (ymoNetSendBuckets outcomes chain).chain = []) := by
  induction outcomes generalizing chain with
  | nil =>
      rw [SendsClean]
      · unfold ymoNetSendBuckets
        split
        · exact ⟨fun _ => Status.noConfusion, fun _ => trivial⟩
        · exact ⟨fun _ => Status.noConfusion, fun _ => trivial⟩
      · intro _ _ absurdity
        cases absurdity
  | cons outcome outcomes ih =>
      have clean :
          ∀ left,
            unsentAll left = [] ∨ offered left = [] →
              SendsClean outcomes left := by
        intro left nothing
        have offers : offered left = [] := by
          rcases nothing with all | offers
          · exact offered_eq_nil all
          · exact offers
        refine (ih left).mpr ?_
        rw [status_of_offered_nil outcomes offers]
        exact Status.noConfusion
      by_cases nothing : offered chain = []
      · rw [status_of_offered_nil _ nothing]
        refine ⟨fun _ => Status.noConfusion, fun _ => ?_⟩
        cases outcome with
        | blocked => trivial
        | failed errno => trivial
        | accepted room =>
            rw [SendsClean, nothing, List.length_nil, Nat.min_zero,
              account_zero]
            exact
              ⟨not_endsBeforeEmpty_zero chain, clean chain (Or.inr nothing)⟩
      · unfold ymoNetSendBuckets
        rw [if_neg nothing]
        cases outcome with
        | blocked => exact ⟨fun _ => Status.noConfusion, fun _ => trivial⟩
        | failed errno => exact ⟨fun _ => Status.noConfusion, fun _ => trivial⟩
        | accepted room =>
            have positive : 0 < min (room + 1) (offered chain).length := by
              have offers := List.length_pos_of_ne_nil nothing
              omega
            rw [SendsClean, endsBeforeEmpty_iff positive]
            dsimp only
            generalize
              account (min (room + 1) (offered chain).length) chain = left
            cases left with
            | nil =>
                refine ⟨fun _ _ => rfl, fun _ => ⟨?_, ?_⟩⟩
                · rintro ⟨bucket, back, absurdity, -⟩
                  cases absurdity
                · exact clean [] (Or.inl rfl)
            | cons bucket back =>
                by_cases empty : bucket.len = 0
                · have stops : headHasLength (bucket :: back) = false := by
                    rw [headHasLength, empty]
                    rfl
                  have behind :
                      unsentAll (bucket :: back) = unsentAll back := by
                    rw [unsentAll_cons,
                      Bucket.unsent_eq_nil_of_len_eq_zero empty,
                      List.nil_append]
                  rw [stops]
                  show _ ↔ (_ → unsentAll (bucket :: back) = [])
                  rw [behind]
                  constructor
                  · rintro ⟨noGap, -⟩ _
                    by_contra more
                    exact noGap ⟨bucket, back, rfl, empty, more⟩
                  · intro sent
                    have all := sent rfl
                    refine ⟨?_, clean _ (Or.inl (behind.trans all))⟩
                    rintro ⟨_, others, same, -, more⟩
                    rw [(List.cons.inj same).2] at all
                    exact more all
                · have goesOn : headHasLength (bucket :: back) = true := by
                    rw [headHasLength]
                    exact bne_iff_ne.mpr empty
                  rw [goesOn, if_pos rfl]
                  refine Iff.trans ?_ (ih _)
                  refine ⟨And.right, fun rest => ⟨?_, rest⟩⟩
                  rintro ⟨other, _, same, zero, -⟩
                  rw [← (List.cons.inj same).1] at zero
                  exact empty zero

/-! ## Runs -/

/-- What happens to the queue: a frame is accepted, or the write callback runs. -/
inductive QueueAction where
  | send (sending : Sending)
  | write (outcomes : List SendOutcome)

/-- The queue, the bytes of the frames that were accepted, and what the socket took. -/
structure Sender where
  queue : Queue
  accepted : Bytes
  wire : Bytes

def Sender.create (bucket : Nat → Bucket) (next : Nat → Option Nat) :
    Sender where
  queue := .create bucket next
  accepted := []
  wire := []

/-- The bytes of a frame: its header and its payload. -/
def frameBytes (sending : Sending) : Bytes :=
  genWsMsgHdr sending.flags sending.payload.flatten.length ++
    sending.payload.flatten

/-- One action; a loop over a chain that does not end changes nothing. -/
def stepSender (sender : Sender) : QueueAction → Sender
  | .send sending =>
      match sendPayload sender.queue sending with
      | none => sender
      | some queue =>
          { sender with
            queue := queue
            accepted := sender.accepted ++ frameBytes sending }
  | .write outcomes =>
      match writeQueue sender.queue outcomes with
      | none => sender
      | some (queue, bytes) =>
          { sender with
            queue := queue
            wire := sender.wire ++ bytes }

/-- One action on the list. -/
def ListQueue.step (queue : ListQueue) : QueueAction → ListQueue
  | .send sending => queue.send sending
  | .write outcomes => queue.write outcomes

/-- The bytes that `send_head` leads to are those that were accepted and not sent, and
`send_tail` is the last bucket. -/
def Kept (sender : Sender) : Prop :=
  ∃ nodes,
    Linked sender.queue.next sender.queue.sendHead nodes ∧
      sender.wire ++ unsentAll (nodes.map sender.queue.bucket) =
          sender.accepted ∧
        sender.queue.sendTail = nodes.getLast?

/-- The buckets that `send_head` leads to. -/
def Queue.chain (queue : Queue) : List Bucket :=
  (queue.nodes.getD []).map queue.bucket

/-- The payload is not `NULL`, and no send ends right before an empty bucket with bytes
behind it. -/
def Unbroken (sender : Sender) : QueueAction → Prop
  | .send sending => sending.payload ≠ []
  | .write outcomes => SendsClean outcomes sender.queue.chain

/-- The queue of pointers stands for a list. -/
def Standing (sender : Sender) (listed : ListQueue) : Prop :=
  ∃ nodes, Shows sender.queue nodes listed

theorem standing_create (bucket : Nat → Bucket) (next : Nat → Option Nat) :
    Standing (Sender.create bucket next) { list := [], tail := .null } :=
  ⟨[], ⟨.nil, by rintro node ⟨⟩⟩, rfl, rfl, fun _ => rfl⟩

variable {sender : Sender}

theorem standing_step (standing : Standing sender listed)
    (action : QueueAction) :
    Standing (stepSender sender action) (listed.step action) := by
  rcases standing with ⟨nodes, holds⟩
  cases action with
  | send sending =>
      rcases shows_send holds sending with ⟨after, later, called, shown⟩
      rw [stepSender, called]
      exact ⟨later, shown⟩
  | write outcomes =>
      rcases shows_write holds outcomes with
        ⟨after, later, called, shown⟩
      rw [stepSender, called]
      exact ⟨later, shown⟩

/-- **The queue of a session** stands for the chain through every run. -/
theorem standing_run (bucket : Nat → Bucket) (next : Nat → Option Nat)
    (actions : List QueueAction) :
    Standing (run stepSender (Sender.create bucket next) actions)
      (run ListQueue.step { list := [], tail := .null } actions) := by
  have along :
      ∀ sender listed,
        Standing sender listed →
          Standing (run stepSender sender actions)
            (run ListQueue.step listed actions) := by
    induction actions with
    | nil =>
        intro _ _ standing
        exact standing
    | cons action rest ih =>
        intro _ _ standing
        exact ih _ _ (standing_step standing action)
  exact along _ _ (standing_create bucket next)

/-- What is kept, on the list. -/
theorem kept_iff {sender : Sender} {nodes : List Nat} {listed : ListQueue}
    (holds : Shows sender.queue nodes listed) :
    Kept sender ↔
      sender.wire ++ unsentAll listed.list = sender.accepted ∧
        (listed.tail = .last ∨ listed.list = []) := by
  have tail := holds.tail
  constructor
  · rintro ⟨others, linked, bytes, points⟩
    have same := linked.unique holds.chain.linked
    rw [same] at bytes points
    rw [holds.contents] at bytes
    refine ⟨bytes, ?_⟩
    revert tail
    cases listed.tail with
    | null =>
        intro absent
        have none' : nodes = [] := by
          rw [← List.getLast?_eq_none_iff, ← points]
          exact absent
        rw [← holds.contents, none']
        exact Or.inr rfl
    | last =>
        intro _
        exact Or.inl rfl
    | detached =>
        rintro ⟨node, pointsNode, -, outside, -⟩
        exact
          absurd (List.mem_of_getLast? (points.symm.trans pointsNode)) outside
  · rintro ⟨bytes, ends⟩
    refine ⟨nodes, holds.chain.linked, ?_, ?_⟩
    · rw [holds.contents]
      exact bytes
    · rcases ends with atLast | nothing
      · rw [atLast] at tail
        rcases tail with ⟨node, points, isLast⟩
        rw [points, isLast]
      · rw [holds.empty nothing] at tail
        have none' : nodes = [] := by
          rw [← List.map_eq_nil_iff, holds.contents]
          exact nothing
        rw [none']
        exact tail

theorem unsentAll_frameChain (sending : Sending) :
    unsentAll (frameChain sending) = frameBytes sending := by
  have payload :
      unsentAll (sending.payload.map Bucket.fresh) =
        sending.payload.flatten := by
    rw [unsentAll, List.flatMap_map]
    have same :
        (fun data => (Bucket.fresh data).unsent) = (id : Bytes → Bytes) := by
      funext data
      exact Bucket.unsent_fresh data
    rw [same, List.flatMap_id]
  rw [frameChain, unsentAll_cons, Bucket.unsent_fresh, payload, frameBytes]

/-- A send keeps the queue just where its payload is not `NULL`. -/
theorem kept_send_iff {nodes : List Nat}
    (holds : Shows sender.queue nodes listed)
    (kept : Kept sender)
    (sending : Sending) :
    Kept (stepSender sender (.send sending)) ↔ sending.payload ≠ [] := by
  rcases (kept_iff holds).mp kept with ⟨bytes, ends⟩
  rcases shows_send holds sending with ⟨after, later, called, shown⟩
  rw [stepSender, called]
  rw [@kept_iff { sender with
    queue := after, accepted := sender.accepted ++ frameBytes sending }
    later (listed.send sending) shown]
  have hung : listed.list.isEmpty = true ∨ listed.tail = .last := by
    rcases ends with atLast | nothing
    · exact Or.inr atLast
    · exact Or.inl (List.isEmpty_iff.mpr nothing)
  have list :
      (listed.send sending).list = listed.list ++ frameChain sending := by
    rw [ListQueue.send]
    by_cases empty : listed.list.isEmpty = true
    · rw [if_pos empty, List.isEmpty_iff.mp empty]
      rfl
    · rw [if_neg empty, if_pos (hung.resolve_left empty)]
  have tail :
      (listed.send sending).tail =
        if sending.payload.isEmpty then .null else .last := by
    rw [ListQueue.send, if_pos hung]
  rw [list, tail, unsentAll_append, ← List.append_assoc, bytes,
    unsentAll_frameChain]
  constructor
  · rintro ⟨-, atLast | nothing⟩ none'
    · rw [none'] at atLast
      cases atLast
    · cases (List.append_eq_nil_iff.mp nothing).2
  · intro some'
    refine ⟨rfl, Or.inl ?_⟩
    rw [if_neg]
    exact fun all => some' (List.isEmpty_iff.mp all)

/-- A write keeps the queue just where its sends are clean. -/
theorem kept_write_iff {nodes : List Nat}
    (holds : Shows sender.queue nodes listed)
    (kept : Kept sender)
    (outcomes : List SendOutcome) :
    Kept (stepSender sender (.write outcomes)) ↔
      SendsClean outcomes sender.queue.chain := by
  rcases (kept_iff holds).mp kept with ⟨bytes, ends⟩
  rcases shows_write holds outcomes with ⟨after, later, called, shown⟩
  have chain : sender.queue.chain = listed.list := by
    rw [Queue.chain, holds.chain.nodes_eq]
    exact holds.contents
  rw [stepSender, called, chain]
  rw [@kept_iff { sender with
    queue := after, wire := sender.wire ++ listed.wire outcomes }
    later (listed.write outcomes) shown, sendsClean_iff]
  have conserved := ymoNetSendBuckets_conserves outcomes listed.list
  rw [ListQueue.write, ListQueue.wire]
  by_cases nothing : listed.list = []
  · have empty : listed.list.isEmpty = true := List.isEmpty_iff.mpr nothing
    rw [if_pos empty, if_pos empty, List.append_nil]
    refine ⟨fun _ sent => ?_, fun _ => ⟨bytes, Or.inr nothing⟩⟩
    rw [status_of_offered_nil outcomes
      (offered_eq_nil (by rw [nothing]; rfl))] at sent
    cases sent
  · have full : ¬listed.list.isEmpty = true :=
      fun all => nothing (List.isEmpty_iff.mp all)
    have atLast := ends.resolve_right nothing
    rw [if_neg full, if_neg full]
    dsimp only
    generalize ymoNetSendBuckets outcomes listed.list = result at conserved ⊢
    have total :
        sender.wire ++ result.wire ++ unsentAll result.chain =
          sender.accepted := by
      rw [List.append_assoc, conserved]
      exact bytes
    cases status : result.status with
    | okay =>
        dsimp only
        rw [unsentAll_nil, List.append_nil, ← total]
        constructor
        · rintro ⟨whole, -⟩ _
          exact List.self_eq_append_right.mp whole
        · intro sent
          rw [sent rfl, List.append_nil]
          exact ⟨rfl, Or.inr rfl⟩
    | err errno =>
        refine ⟨fun _ => Status.noConfusion, fun _ => ?_⟩
        exact ⟨total, Or.inl atLast⟩

/-- **The send queue**: all along a run the bytes that `send_head` leads to are those of
the accepted frames that were not sent, in the order of the calls, and `send_tail` is
the last bucket, if and only if no payload is `NULL` and no send of a write callback
ends right before an empty bucket with bytes behind it. -/
theorem queue_kept_iff (bucket : Nat → Bucket) (next : Nat → Option Nat)
    (actions : List QueueAction) :
    (∀ front back,
        actions = front ++ back →
          Kept (run stepSender (Sender.create bucket next) front)) ↔
      AllAlong stepSender Unbroken (Sender.create bucket next) actions := by
  have start : Kept (Sender.create bucket next) := ⟨[], .nil, rfl, rfl⟩
  have exact' :
      ∀ sender action,
        (Kept sender ∧ ∃ listed, Standing sender listed) →
          ((Kept (stepSender sender action) ∧
                ∃ listed, Standing (stepSender sender action) listed) ↔
            Unbroken sender action) := by
    rintro sender action ⟨kept, listed, standing⟩
    have later := standing_step standing action
    rcases standing with ⟨nodes, holds⟩
    have step : Kept (stepSender sender action) ↔ Unbroken sender action := by
      cases action with
      | send sending => exact kept_send_iff holds kept sending
      | write outcomes => exact kept_write_iff holds kept outcomes
    exact
      ⟨fun both => step.mp both.1,
        fun unbroken => ⟨step.mpr unbroken, _, later⟩⟩
  rw [← invariant_along_iff
    (fun sender => Kept sender ∧ ∃ listed, Standing sender listed) exact'
    ⟨start, _, standing_create bucket next⟩ actions]
  constructor
  · intro along front back split
    exact ⟨along front back split, _, standing_run bucket next front⟩
  · intro along front back split
    exact (along front back split).1

/-- The queue before the first frame, in a memory without buckets. -/
def emptySender : Sender :=
  .create (fun _ => Bucket.fresh []) fun _ => none

/-- An empty PONG, a text frame, and a socket that takes two bytes. -/
def emptyPong : List QueueAction :=
  [.send { flags := 0x8a, payload := [[]] },
    .send { flags := 0x81, payload := [[0x41]] },
    .write [.accepted 1]]

/-- The text frame is dropped. -/
theorem frame_lost_after_empty :
    (∀ action ∈ emptyPong,
        ∀ sending, action = .send sending → sending.payload ≠ []) ∧
      ¬Kept (run stepSender emptySender emptyPong) := by
  constructor
  · rintro action member sending rfl
    rcases List.mem_cons.mp member with same | member
    · cases same
      exact List.cons_ne_nil _ _
    · rcases List.mem_cons.mp member with same | member
      · cases same
        exact List.cons_ne_nil _ _
      · cases List.mem_singleton.mp member
  · rintro ⟨nodes, linked, bytes, -⟩
    have head : (run stepSender emptySender emptyPong).queue.sendHead = none :=
      rfl
    rw [head] at linked
    cases linked
    revert bytes
    decide

/-- A PING without payload, and a text frame. -/
def nullPing : List QueueAction :=
  [.send { flags := 0x89, payload := [] },
    .send { flags := 0x81, payload := [[0x41]] }]

/-- The text frame is not in the queue. -/
theorem frame_lost_after_null :
    ¬Kept (run stepSender emptySender nullPing) := by
  rintro ⟨nodes, linked, bytes, -⟩
  have single :
      Linked (run stepSender emptySender nullPing).queue.next
        (run stepSender emptySender nullPing).queue.sendHead [0] :=
    .cons .nil
  rw [linked.unique single] at bytes
  revert bytes
  decide

end Yimmo.Ws.SendQueue
