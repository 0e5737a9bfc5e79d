import Yimmo.Wsgi.Steps

/-!
# How far the exchanges are

`Progress` is the invariant of the order in which an exchange is used.  An
exchange whose request is still being read is only in the list of its session.
Once it was handed to the worker it is the head of that list, and either the worker
has its reference to it or its last data waits in the queue, until the server's
thread marks it as sent and takes it from the list.
-/

namespace Yimmo.Wsgi.Progress

open Yimmo.Lib.Threads
open Yimmo.Wsgi.Worker
open Yimmo.Wsgi.References
open Yimmo.Wsgi.Accounting
open Yimmo.Wsgi.Release
open Yimmo.Wsgi.Steps

variable
    {e : Nat}
    {op : Op}

/-! ## Weights of operations -/

/-- The worker starts the request of the exchange. -/
def startsFor (e : Nat) : Op → Nat
  | .holdContext other => if other = e then 1 else 0
  | .checkClosed .newContext other => if other = e then 1 else 0
  | .tryLock .newContext other => if other = e then 1 else 0
  | .makeContext other => if other = e then 1 else 0
  | .unlockContext other => if other = e then 1 else 0
  | .issueRequest other => if other = e then 1 else 0
  | _ => 0

/-- The exchange was marked as sent, and has not been taken from the list. -/
def doneWith (e : Nat) : Op → Nat
  | .exchangeDone other => if other = e then 1 else 0
  | _ => 0

/-- The list of the session is going to be released. -/
def cleaning (s : Nat) : Op → Nat
  | .lockCleanup other => if other = s then 1 else 0
  | .releaseList other => if other = s then 1 else 0
  | _ => 0

/-- The operation is a point in a loop of the server's thread. -/
def control : Op → Nat
  | .popResponse => 1
  | .exchangeDone _ => 1
  | .lockCleanup _ => 1
  | .releaseList _ => 1
  | .unlockCleanup _ => 1
  | _ => 0

/-! ## The invariant -/

/-- The exchange was handed to the worker. -/
def Handed (world : World) (e : Nat) : Prop :=
  (world.owner e, (world.exchanges e).response) ∈ world.requested

/-- The references that are kept elsewhere than in the session's list. -/
def busy (world : World) (e : Nat) : Nat :=
  world.queueIn.count e + owed world.call e + world.queueOut.count e +
    world.contexts.count e

/-- The references of the worker that no operation has. -/
def workerKept (world : World) (e : Nat) : Nat :=
  world.queueIn.count e + owed world.call e

/-- The last data of the exchange waits in the queue. -/
def Waiting (world : World) (e : Nat) : Prop :=
  (world.exchanges e).done = true ∧ e ∈ world.queueOut

/-- Each request has a number, and so has the exchange made for it. -/
structure Numbered (world : World) : Prop where
  response :
    ∀ e, e < world.nextExchange →
      (world.exchanges e).response < world.nextResponse
  injective :
    ∀ e, e < world.nextExchange → ∀ other, other < world.nextExchange →
      (world.exchanges e).response = (world.exchanges other).response →
        e = other
  asked :
    ∀ s response, (s, response) ∈ world.requested →
      ∃ e, e < world.nextExchange ∧ world.owner e = s ∧
        (world.exchanges e).response = response
  reading :
    ∀ s arrival, (world.sessions s).reading = some arrival →
      arrival.response < world.nextResponse ∧
        (∀ other, (other, arrival.response) ∉ world.requested) ∧
          (∀ e, e < world.nextExchange →
            (world.exchanges e).response = arrival.response →
              arrival.exchange = some e) ∧
            ∀ e, arrival.exchange = some e →
              e < world.nextExchange ∧ world.owner e = s ∧
                (world.exchanges e).response = arrival.response

/-- What was finished was sent, and only once. -/
structure Finished (world : World) : Prop where
  unfinished :
    ∀ e, e < world.nextExchange → (world.exchanges e).sent = false →
      world.finished.count (world.exchanges e).response = 0
  finishedOnce :
    ∀ e, e < world.nextExchange →
      world.finished.count (world.exchanges e).response ≤ 1
  finishedOpen :
    ∀ e, e < world.nextExchange → (world.exchanges e).sent = true →
      (world.sessions (world.owner e)).closed = false →
        world.finished.count (world.exchanges e).response = 1
  finishedKnown :
    ∀ response ∈ world.finished,
      ∃ e, e < world.nextExchange ∧ (world.exchanges e).response = response

structure Order (world : World) : Prop
    extends Numbered world, Finished world where
  unhanded :
    ∀ e, e < world.nextExchange → ¬Handed world e →
      (world.sessions (world.owner e)).closed = false ∧
        (world.sessions (world.owner e)).reading =
            some
              { response := (world.exchanges e).response
                exchange := some e } ∧
          (world.exchanges e).sent = false ∧
            busy world e + total (refs e) world.ops = 0
  working :
    ∀ e, e < world.nextExchange → Handed world e →
      (world.exchanges e).sent = false →
        0 < workerKept world e + total (startsFor e) world.ops ∨
          Waiting world e
  nodup : ∀ s, (world.sessions s).list.Nodup
  tail :
    ∀ s head rest, (world.sessions s).list = head :: rest →
      ∀ e ∈ rest, ¬Handed world e
  sentListed :
    ∀ e, (world.exchanges e).sent = true →
      e ∈ (world.sessions (world.owner e)).list →
        0 < total (doneWith e) world.ops
  unsentListed :
    ∀ e, e < world.nextExchange → (world.exchanges e).sent = false →
      (world.sessions (world.owner e)).closed = false →
        e ∈ (world.sessions (world.owner e)).list
  doneHead :
    ∀ e, 0 < total (doneWith e) world.ops →
      (world.sessions (world.owner e)).list = [] ∨
        (world.sessions (world.owner e)).list.head? = some e
  doneSent :
    ∀ e, 0 < total (doneWith e) world.ops → (world.exchanges e).sent = true
  cleaningClosed :
    ∀ s, 0 < total (cleaning s) world.ops → (world.sessions s).closed = true
  closedEmpty :
    ∀ s, (world.sessions s).closed = true →
      (world.sessions s).list = [] ∨ 0 < total (cleaning s) world.ops
  single : total control world.ops ≤ 1

/-- Nothing changes in how requests are numbered and which is read. -/
structure Stays (world after : World) : Prop where
  nextExchange : after.nextExchange = world.nextExchange
  nextResponse : after.nextResponse = world.nextResponse
  requested : after.requested = world.requested
  owner : ∀ e, after.owner e = world.owner e
  response : ∀ e, (after.exchanges e).response = (world.exchanges e).response
  reading : ∀ s, (after.sessions s).reading = (world.sessions s).reading

theorem Stays.handed {world after : World} (stays : Stays world after)
    (e : Nat) :
    Handed after e ↔ Handed world e := by
  unfold Handed
  rw [stays.owner, stays.response, stays.requested]

theorem Numbered.stays {world after : World} (numbered : Numbered world)
    (stays : Stays world after) :
    Numbered after := by
  constructor
  case response =>
    intro e below
    rw [stays.nextExchange] at below
    rw [stays.response, stays.nextResponse]
    exact numbered.response e below
  case injective =>
    intro e below other otherBelow same
    rw [stays.nextExchange] at below otherBelow
    rw [stays.response, stays.response] at same
    exact numbered.injective e below other otherBelow same
  case asked =>
    intro s r member
    rw [stays.requested] at member
    rcases numbered.asked s r member with ⟨e, below, owned, same⟩
    refine ⟨e, ?_, (stays.owner e).trans owned, (stays.response e).trans same⟩
    rw [stays.nextExchange]
    exact below
  case reading =>
    intro s arrival same
    rw [stays.reading] at same
    rcases numbered.reading s arrival same with ⟨small, fresh, only, created⟩
    rw [stays.nextResponse, stays.requested, stays.nextExchange]
    refine ⟨small, fresh, ?_, ?_⟩
    · intro e below equal
      rw [stays.response] at equal
      exact only e below equal
    · intro e made
      rcases created e made with ⟨below, owned, equal⟩
      exact
        ⟨below, (stays.owner e).trans owned, (stays.response e).trans equal⟩

theorem Finished.same {world after : World}
    (answers : Finished world)
    (nextExchange : after.nextExchange = world.nextExchange)
    (finished : after.finished = world.finished)
    (owner : ∀ e, after.owner e = world.owner e)
    (response :
      ∀ e, (after.exchanges e).response = (world.exchanges e).response)
    (sent : ∀ e, (after.exchanges e).sent = (world.exchanges e).sent)
    (closed : ∀ s, (after.sessions s).closed = (world.sessions s).closed) :
    Finished after := by
  constructor
  case unfinished =>
    intro e below unsent
    rw [nextExchange] at below
    rw [sent] at unsent
    rw [finished, response]
    exact answers.unfinished e below unsent
  case finishedOnce =>
    intro e below
    rw [nextExchange] at below
    rw [finished, response]
    exact answers.finishedOnce e below
  case finishedOpen =>
    intro e below marked opened
    rw [nextExchange] at below
    rw [sent] at marked
    rw [owner, closed] at opened
    rw [finished, response]
    exact answers.finishedOpen e below marked opened
  case finishedKnown =>
    intro r member
    rw [finished] at member
    rw [nextExchange]
    rcases answers.finishedKnown r member with ⟨e, below, same⟩
    exact ⟨e, below, (response e).trans same⟩

/-- Nothing changes in what the order of use is about. -/
structure Still (world after : World) : Prop where
  nextExchange : after.nextExchange = world.nextExchange
  nextResponse : after.nextResponse = world.nextResponse
  requested : after.requested = world.requested
  finished : after.finished = world.finished
  ops : after.ops = world.ops
  owner : ∀ e, after.owner e = world.owner e
  response : ∀ e, (after.exchanges e).response = (world.exchanges e).response
  sent : ∀ e, (after.exchanges e).sent = (world.exchanges e).sent
  reading : ∀ s, (after.sessions s).reading = (world.sessions s).reading
  list : ∀ s, (after.sessions s).list = (world.sessions s).list
  closed : ∀ s, (after.sessions s).closed = (world.sessions s).closed

/-- A step that moves an exchange on without a change to its place. -/
theorem Order.still {world after : World}
    (order : Order world)
    (still : Still world after)
    {thread : Thread}
    {old new rest : List Op}
    (pending : world.ops thread = old ++ rest)
    (idle :
      ∀ e, busy world e + total (refs e) world.ops = 0 →
        busy after e + weigh (refs e) new = 0)
    (working :
      ∀ e,
        workerKept world e + weigh (startsFor e) old ≤
            workerKept after e + weigh (startsFor e) new ∨
          Waiting after e)
    (waiting :
      ∀ e, (world.exchanges e).sent = false →
        Waiting world e →
          Waiting after e ∨ 0 < workerKept after e + weigh (startsFor e) new)
    (done : ∀ e, weigh (doneWith e) new = weigh (doneWith e) old)
    (cleaned : ∀ s, weigh (cleaning s) new = weigh (cleaning s) old)
    (single :
      total control world.ops + weigh control new ≤ 1 + weigh control old) :
    Order (after.begin thread (new ++ rest)) := by
  have moved : (after.begin thread (new ++ rest)).ops =
      setOps world.ops thread (new ++ rest) := by
    rw [← still.ops]
    rfl
  have balance (weight : Op → Nat) := total_replace weight new pending
  have within (weight : Op → Nat) :
      weigh weight old ≤ total weight world.ops := by
    have change := total_setOps weight world.ops thread rest
    rw [pending, List.map_append, List.sum_append] at change
    unfold weigh
    omega
  have owner := still.owner
  have response := still.response
  have sent := still.sent
  have list := still.list
  have closed := still.closed
  have reading := still.reading
  have stays : Stays world (after.begin thread (new ++ rest)) :=
    ⟨still.nextExchange, still.nextResponse, still.requested, owner,
      response, reading⟩
  have handed := stays.handed
  have doneSame (e : Nat) :
      total (doneWith e) (after.begin thread (new ++ rest)).ops =
        total (doneWith e) world.ops := by
    have change := balance (doneWith e)
    have same := done e
    rw [moved]
    omega
  have cleanedSame (s : Nat) :
      total (cleaning s) (after.begin thread (new ++ rest)).ops =
        total (cleaning s) world.ops := by
    have change := balance (cleaning s)
    have same := cleaned s
    rw [moved]
    omega
  constructor
  case toNumbered => exact order.toNumbered.stays stays
  case toFinished =>
    exact
      order.toFinished.same still.nextExchange still.finished owner
        response sent closed
  case unhanded =>
    intro e below notHanded
    rcases order.unhanded e (by rw [← still.nextExchange]; exact below)
        (fun before => notHanded ((handed e).mpr before)) with
      ⟨opened, read, unsent, nothing⟩
    have change := balance (refs e)
    have limit := within (refs e)
    have stays := idle e nothing
    refine ⟨?_, ?_, ?_, ?_⟩
    · show (after.sessions (after.owner e)).closed = false
      rw [owner, closed]
      exact opened
    · show (after.sessions (after.owner e)).reading =
        some
          { response := (after.exchanges e).response
            exchange := some e }
      rw [owner, reading, response]
      exact read
    · show (after.exchanges e).sent = false
      rw [sent]
      exact unsent
    · have same : busy (after.begin thread (new ++ rest)) e =
          busy after e :=
        rfl
      rw [moved, same]
      omega
  case working =>
    intro e below before unsent
    have inside : e < world.nextExchange := by
      rw [← still.nextExchange]
      exact below
    have unsentBefore : (world.exchanges e).sent = false := by
      rw [← sent]
      exact unsent
    have change := balance (startsFor e)
    have limit := within (startsFor e)
    have kept : workerKept (after.begin thread (new ++ rest)) e =
        workerKept after e :=
      rfl
    rw [moved, kept]
    rcases order.working e inside ((handed e).mp before) unsentBefore with
      works | waits
    · rcases working e with more | waits
      · exact Or.inl (by omega)
      · exact Or.inr waits
    · rcases waiting e unsentBefore waits with still | works
      · exact Or.inr still
      · exact Or.inl (by omega)
  case nodup =>
    intro s
    show (after.sessions s).list.Nodup
    rw [list]
    exact order.nodup s
  case tail =>
    intro s head others same e member before
    apply order.tail s head others _ e member ((handed e).mp before)
    rw [← list]
    exact same
  case sentListed =>
    intro e marked member
    rw [doneSame]
    apply order.sentListed e
    · rw [← sent]
      exact marked
    · rw [← owner, ← list]
      exact member
  case unsentListed =>
    intro e below unsent opened
    show e ∈ (after.sessions (after.owner e)).list
    rw [owner, list]
    apply order.unsentListed e (by rw [← still.nextExchange]; exact below)
    · rw [← sent]
      exact unsent
    · rw [← owner, ← closed]
      exact opened
  case doneHead =>
    intro e some
    rw [doneSame] at some
    show (after.sessions (after.owner e)).list = [] ∨
      (after.sessions (after.owner e)).list.head? = _
    rw [owner, list]
    exact order.doneHead e some
  case doneSent =>
    intro e some
    rw [doneSame] at some
    show (after.exchanges e).sent = true
    rw [sent]
    exact order.doneSent e some
  case cleaningClosed =>
    intro s some
    rw [cleanedSame] at some
    show (after.sessions s).closed = true
    rw [closed]
    exact order.cleaningClosed s some
  case closedEmpty =>
    intro s ended
    rw [cleanedSame]
    show (after.sessions s).list = [] ∨ _
    rw [list]
    apply order.closedEmpty s
    rw [← closed]
    exact ended
  case single =>
    have change := balance control
    rw [moved]
    omega

/-! ## Steps that change nothing but counts and locks -/

/-- Nothing changes but counts, locks and pools. -/
structure Same (world after : World) : Prop extends Still world after where
  queueIn : after.queueIn = world.queueIn
  queueOut : after.queueOut = world.queueOut
  call : after.call = world.call
  contexts : after.contexts = world.contexts
  done : ∀ e, (after.exchanges e).done = (world.exchanges e).done

theorem Same.refl (world : World) : Same world world :=
  ⟨⟨rfl, rfl, rfl, rfl, rfl, fun _ => rfl, fun _ => rfl, fun _ => rfl,
    fun _ => rfl, fun _ => rfl, fun _ => rfl⟩, rfl, rfl, rfl, rfl,
    fun _ => rfl⟩

theorem Same.trans {first second third : World} (front : Same first second)
    (back : Same second third) :
    Same first third where
  nextExchange := back.nextExchange.trans front.nextExchange
  nextResponse := back.nextResponse.trans front.nextResponse
  requested := back.requested.trans front.requested
  finished := back.finished.trans front.finished
  ops := back.ops.trans front.ops
  owner e := (back.owner e).trans (front.owner e)
  response e := (back.response e).trans (front.response e)
  sent e := (back.sent e).trans (front.sent e)
  reading s := (back.reading s).trans (front.reading s)
  list s := (back.list s).trans (front.list s)
  closed s := (back.closed s).trans (front.closed s)
  queueIn := back.queueIn.trans front.queueIn
  queueOut := back.queueOut.trans front.queueOut
  call := back.call.trans front.call
  contexts := back.contexts.trans front.contexts
  done e := (back.done e).trans (front.done e)

/-- Neither faults nor the lock of the queue matter. -/
theorem Same.log (world : World) (lockOut : Bool) (faults : List Fault) :
    Same world
      { world with
        lockOut := lockOut
        faults := faults } :=
  ⟨⟨rfl, rfl, rfl, rfl, rfl, fun _ => rfl, fun _ => rfl, fun _ => rfl,
    fun _ => rfl, fun _ => rfl, fun _ => rfl⟩, rfl, rfl, rfl, rfl,
    fun _ => rfl⟩

theorem Same.touchExchange (world : World) (e : Nat) :
    Same world (world.touchExchange e) := by
  unfold World.touchExchange
  split_ifs
  · exact Same.log world world.lockOut _
  · exact Same.refl world

theorem Same.touchSession (world : World) (s : Nat) :
    Same world (world.touchSession s) := by
  unfold World.touchSession
  split_ifs
  · exact Same.log world world.lockOut _
  · exact Same.refl world

theorem Same.touch (world : World) (e : Nat) : Same world (world.touch e) :=
  (Same.touchExchange world e).trans (Same.touchSession _ _)

theorem Same.setExchange (world : World) {exchange : Exchange}
    (session : exchange.session = world.owner e)
    (response : exchange.response = (world.exchanges e).response)
    (sent : exchange.sent = (world.exchanges e).sent)
    (done : exchange.done = (world.exchanges e).done) :
    Same world (world.setExchange e exchange) :=
  ⟨⟨rfl, rfl, rfl, rfl, rfl, part_setExchange Exchange.session session,
    part_setExchange Exchange.response response,
    part_setExchange Exchange.sent sent, fun _ => rfl, fun _ => rfl,
    fun _ => rfl⟩, rfl, rfl, rfl, rfl, part_setExchange Exchange.done done⟩

theorem Same.setSession (world : World) {s : Nat} {session : Session}
    (reading : session.reading = (world.sessions s).reading)
    (list : session.list = (world.sessions s).list)
    (closed : session.closed = (world.sessions s).closed) :
    Same world (world.setSession s session) :=
  ⟨⟨rfl, rfl, rfl, rfl, rfl, fun _ => rfl, fun _ => rfl, fun _ => rfl,
    part_setSession Session.reading reading,
    part_setSession Session.list list,
    part_setSession Session.closed closed⟩, rfl, rfl, rfl, rfl, fun _ => rfl⟩

/-- An access to an exchange, and a change to what is not in the order. -/
theorem Same.touchSet (world : World) {exchange : Exchange}
    (session : exchange.session = world.owner e)
    (response : exchange.response = (world.exchanges e).response)
    (sent : exchange.sent = (world.exchanges e).sent)
    (done : exchange.done = (world.exchanges e).done) :
    Same world ((world.touchExchange e).setExchange e exchange) := by
  have touched := Same.touchExchange world e
  apply touched.trans
  apply Same.setExchange
  · exact session.trans (touched.owner e).symm
  · exact response.trans (touched.response e).symm
  · exact sent.trans (touched.sent e).symm
  · exact done.trans (touched.done e).symm

/-- The same for a session. -/
theorem Same.touchSetSession (world : World) {s : Nat} {session : Session}
    (reading : session.reading = (world.sessions s).reading)
    (list : session.list = (world.sessions s).list)
    (closed : session.closed = (world.sessions s).closed) :
    Same world ((world.touchSession s).setSession s session) := by
  have touched := Same.touchSession world s
  apply touched.trans
  apply Same.setSession
  · exact reading.trans (touched.reading s).symm
  · exact list.trans (touched.list s).symm
  · exact closed.trans (touched.closed s).symm

theorem Same.setLocked (world : World) (s : Nat) (locked : Bool) :
    Same world (world.setLocked s locked) := by
  have touched := Same.touchSession world s
  apply touched.trans
  apply Same.setSession
  · exact (touched.reading s).symm
  · exact (touched.list s).symm
  · exact (touched.closed s).symm

theorem Same.ymoWsgiExchangeIncref (world : World) (e : Nat) :
    Same world (world.ymoWsgiExchangeIncref e) :=
  Same.touchSet world rfl rfl rfl rfl

section Steps

variable
    {world after : World}
    {thread : Thread}
    {rest : List Op}

/-- Such a step depends on what is pending only. -/
theorem Order.same
    (order : Order world)
    (same : Same world after)
    {old new : List Op}
    (pending : world.ops thread = old ++ rest)
    (idle :
      ∀ e, busy world e + total (refs e) world.ops = 0 →
        weigh (refs e) new = 0)
    (working : ∀ e, weigh (startsFor e) old ≤ weigh (startsFor e) new)
    (done : ∀ e, weigh (doneWith e) new = weigh (doneWith e) old)
    (cleaned : ∀ s, weigh (cleaning s) new = weigh (cleaning s) old)
    (single :
      total control world.ops + weigh control new ≤ 1 + weigh control old) :
    Order (after.begin thread (new ++ rest)) := by
  have busySame (e : Nat) : busy after e = busy world e := by
    unfold busy
    rw [same.queueIn, same.call, same.queueOut, same.contexts]
  have keptSame (e : Nat) : workerKept after e = workerKept world e := by
    unfold workerKept
    rw [same.queueIn, same.call]
  apply order.still same.toStill pending
  case idle =>
    intro e nothing
    have none := idle e nothing
    rw [busySame]
    omega
  case working =>
    intro e
    have more := working e
    rw [keptSame]
    exact Or.inl (by omega)
  case waiting =>
    rintro e - ⟨marked, member⟩
    left
    constructor
    · rw [same.done]
      exact marked
    · rw [same.queueOut]
      exact member
  case done => exact done
  case cleaned => exact cleaned
  case single => exact single

/-- An operation that makes way for others of its kind. -/
theorem Order.goOn (order : Order world) (same : Same world after)
    {new : List Op}
    (pending : world.ops thread = op :: rest)
    (idle : ∀ e, refs e op = 0 → weigh (refs e) new = 0)
    (working : ∀ e, startsFor e op ≤ weigh (startsFor e) new)
    (done : ∀ e, weigh (doneWith e) new = doneWith e op)
    (cleaned : ∀ s, weigh (cleaning s) new = cleaning s op)
    (single : weigh control new ≤ control op) :
    Order (after.begin thread (new ++ rest)) := by
  have split : world.ops thread = [op] ++ rest := pending
  have member := mem_pending pending
  apply order.same same split
  case idle =>
    intro e nothing
    have single := le_total (refs e) member
    exact idle e (by omega)
  case working =>
    intro e
    rw [weigh_one]
    exact working e
  case done =>
    intro e
    rw [weigh_one]
    exact done e
  case cleaned =>
    intro s
    rw [weigh_one]
    exact cleaned s
  case single =>
    have limit := order.single
    rw [weigh_one]
    omega

/-- What is in use outside of the list has been handed to the worker. -/
theorem Order.handed (order : Order world) (below : e < world.nextExchange)
    (some : 0 < busy world e + total (refs e) world.ops) :
    Handed world e := by
  by_contra notHanded
  have nothing := (order.unhanded e below notHanded).2.2.2
  omega

/-- A handed exchange of the list is its head. -/
theorem Order.head (order : Order world) {s e : Nat} (handed : Handed world e)
    (member : e ∈ (world.sessions s).list) :
    (world.sessions s).list.head? = some e := by
  rcases list : (world.sessions s).list with _ | ⟨head, next⟩
  · rw [list] at member
    cases member
  · rw [list] at member
    rcases List.mem_cons.mp member with here | behind
    · rw [here]
      rfl
    · exact absurd handed (order.tail s head next list e behind)

/-- While one point of the server's loops is pending, no other is. -/
theorem Order.alone (order : Order world) {weight : Op → Nat}
    (pending : world.ops thread = op :: rest)
    (isControl : control op = 1)
    (within : ∀ other, weight other ≤ control other) :
    total weight world.ops = weight op := by
  have controls := total_perform control [] pending
  have weights := total_perform weight [] pending
  have below := total_mono within (setOps world.ops thread ([] ++ rest))
  have limit := order.single
  have here := within op
  simp only [List.map_nil, List.sum_nil, Nat.add_zero] at controls weights
  omega

theorem doneWith_le_control (e : Nat) (op : Op) :
    doneWith e op ≤ control op := by
  cases op with
  | exchangeDone other =>
      show (if other = e then 1 else 0) ≤ 1
      split_ifs <;> omega
  | _ => exact Nat.zero_le _

theorem cleaning_le_control (s : Nat) (op : Op) :
    cleaning s op ≤ control op := by
  cases op with
  | lockCleanup other =>
      show (if other = s then 1 else 0) ≤ 1
      split_ifs <;> omega
  | releaseList other =>
      show (if other = s then 1 else 0) ≤ 1
      split_ifs <;> omega
  | _ => exact Nat.zero_le _

/-- The server's thread marks an exchange as sent. -/
theorem order_marked
    (order : Order world)
    {left : List Nat}
    (pending : world.ops thread = .popResponse :: rest)
    (queue : world.queueOut = e :: left)
    (below : e < world.nextExchange)
    (unsent : (world.exchanges e).sent = false)
    (nextExchange : after.nextExchange = world.nextExchange)
    (nextResponse : after.nextResponse = world.nextResponse)
    (requested : after.requested = world.requested)
    (ops : after.ops = world.ops)
    (owner : ∀ other, after.owner other = world.owner other)
    (response :
      ∀ other,
        (after.exchanges other).response = (world.exchanges other).response)
    (done :
      ∀ other, (after.exchanges other).done = (world.exchanges other).done)
    (sent :
      ∀ other,
        (after.exchanges other).sent =
          if other = e then true else (world.exchanges other).sent)
    (sessions : after.sessions = world.sessions)
    (queueIn : after.queueIn = world.queueIn)
    (queueOut : after.queueOut = left)
    (call : after.call = world.call)
    (contexts : after.contexts = world.contexts)
    (finished :
      after.finished =
        world.finished ++
          if (world.sessions (world.owner e)).closed then []
          else [(world.exchanges e).response]) :
    Order
      (after.begin thread ([.release .server e, .exchangeDone e] ++ rest)) := by
  have moved :
      (after.begin thread
          ([.release .server e, .exchangeDone e] ++ rest)).ops =
        setOps world.ops thread
          ([.release .server e, .exchangeDone e] ++ rest) := by
    rw [← ops]
    rfl
  have split : world.ops thread = [.popResponse] ++ rest := pending
  have balance (weight : Op → Nat) :=
    total_replace weight [.release .server e, .exchangeDone e] split
  have inQueue : 0 < busy world e := by
    unfold busy
    rw [queue, List.count_cons_self]
    omega
  have handedHere : Handed world e := order.handed below (by omega)
  have noDone (other : Nat) : total (doneWith other) world.ops = 0 :=
    order.alone pending rfl (doneWith_le_control other)
  have noCleaning (s : Nat) : total (cleaning s) world.ops = 0 :=
    order.alone pending rfl (cleaning_le_control s)
  have doneAfter (other : Nat) :
      total (doneWith other)
          (setOps world.ops thread
            ([.release .server e, .exchangeDone e] ++ rest)) =
        if e = other then 1 else 0 := by
    have change := balance (doneWith other)
    have none := noDone other
    have new :
        weigh (doneWith other) [.release .server e, .exchangeDone e] =
          if e = other then 1 else 0 := by
      show 0 + ((if e = other then 1 else 0) + 0) = _
      omega
    have old : weigh (doneWith other) [.popResponse] = 0 := rfl
    omega
  have stays :
      Stays world
        (after.begin thread
          ([.release .server e, .exchangeDone e] ++ rest)) :=
    ⟨nextExchange, nextResponse, requested, owner, response,
      fun s => congrArg (fun sessions => (sessions s).reading) sessions⟩
  have handed := stays.handed
  have elsewhere {other : Nat}
      (stillUnsent : (after.exchanges other).sent = false) :
      other ≠ e ∧ (world.exchanges other).sent = false := by
    rw [sent] at stillUnsent
    by_cases here : other = e
    · rw [if_pos here] at stillUnsent
      cases stillUnsent
    · rw [if_neg here] at stillUnsent
      exact ⟨here, stillUnsent⟩
  have inRange {other : Nat} (inside : other < after.nextExchange) :
      other < world.nextExchange := by
    rw [← nextExchange]
    exact inside
  have countOther {other : Nat} (inside : other < world.nextExchange)
      (different : other ≠ e) :
      after.finished.count (world.exchanges other).response =
        world.finished.count (world.exchanges other).response := by
    rw [finished, List.count_append]
    split_ifs
    · rfl
    · rw [List.count_singleton, if_neg, Nat.add_zero]
      rw [beq_iff_eq]
      intro same
      exact different (order.injective e below other inside same).symm
  constructor
  case toNumbered => exact order.toNumbered.stays stays
  case unhanded =>
    intro other inside notHanded
    have notBefore : ¬Handed world other := fun before =>
      notHanded ((handed other).mpr before)
    have different : other ≠ e := by
      intro same
      rw [same] at notBefore
      exact notBefore handedHere
    rcases order.unhanded other (inRange inside) notBefore with
      ⟨opened, read, unsentBefore, nothing⟩
    refine ⟨?_, ?_, ?_, ?_⟩
    · show (after.sessions (after.owner other)).closed = false
      rw [owner, sessions]
      exact opened
    · show (after.sessions (after.owner other)).reading =
        some
          { response := (after.exchanges other).response
            exchange := some other }
      rw [owner, sessions, response]
      exact read
    · show (after.exchanges other).sent = false
      rw [sent, if_neg different]
      exact unsentBefore
    · have change := balance (refs other)
      have new :
          weigh (refs other) [.release .server e, .exchangeDone e] = 0 := by
        show (if e = other then 1 else 0) +
          ((if e = other then 1 else 0) + 0) = 0
        simp only [if_neg (Ne.symm different), Nat.add_zero]
      have less :
          busy
              (after.begin thread
                ([.release .server e, .exchangeDone e] ++ rest)) other ≤
            busy world other := by
        show after.queueIn.count other + owed after.call other +
          after.queueOut.count other + after.contexts.count other ≤ _
        unfold busy
        rw [queueIn, call, queueOut, contexts, queue, List.count_cons]
        omega
      rw [moved]
      omega
  case working =>
    intro other inside before stillUnsent
    rcases elsewhere stillUnsent with ⟨different, unsentBefore⟩
    have change := balance (startsFor other)
    have new :
        weigh (startsFor other) [.release .server e, .exchangeDone e] = 0 :=
      rfl
    have old : weigh (startsFor other) [.popResponse] = 0 := rfl
    have kept :
        workerKept
            (after.begin thread
              ([.release .server e, .exchangeDone e] ++ rest)) other =
          workerKept world other := by
      show after.queueIn.count other + owed after.call other = _
      rw [queueIn, call]
      rfl
    rw [moved, kept]
    rcases order.working other (inRange inside)
        ((handed other).mp before) unsentBefore with works | waits
    · exact Or.inl (by omega)
    · right
      constructor
      · show (after.exchanges other).done = true
        rw [done]
        exact waits.1
      · show other ∈ after.queueOut
        have member := waits.2
        rw [queue] at member
        rw [queueOut]
        rcases List.mem_cons.mp member with same | behind
        · exact absurd same different
        · exact behind
  case nodup =>
    intro s
    show (after.sessions s).list.Nodup
    rw [sessions]
    exact order.nodup s
  case tail =>
    intro s head others same other member before
    apply order.tail s head others _ other member ((handed other).mp before)
    rw [← sessions]
    exact same
  case sentListed =>
    intro other marked member
    rw [moved, doneAfter]
    by_cases here : other = e
    · rw [if_pos here.symm]
      exact Nat.one_pos
    · have markedBefore : (world.exchanges other).sent = true := by
        have now : (after.exchanges other).sent = true := marked
        rw [sent, if_neg here] at now
        exact now
      have before : other ∈ (world.sessions (world.owner other)).list := by
        rw [← owner, ← sessions]
        exact member
      have some := order.sentListed other markedBefore before
      have none := noDone other
      omega
  case unsentListed =>
    intro other inside stillUnsent opened
    rcases elsewhere stillUnsent with ⟨-, unsentBefore⟩
    show other ∈ (after.sessions (after.owner other)).list
    rw [owner, sessions]
    apply order.unsentListed other (inRange inside) unsentBefore
    rw [← owner, ← sessions]
    exact opened
  case doneHead =>
    intro other some
    rw [moved, doneAfter] at some
    have here : e = other := by
      by_contra different
      rw [if_neg different] at some
      exact Nat.lt_irrefl 0 some
    rw [← here]
    show (after.sessions (after.owner e)).list = [] ∨
      (after.sessions (after.owner e)).list.head? = Option.some e
    rw [owner, sessions]
    rcases ended : (world.sessions (world.owner e)).closed with _ | _
    · right
      exact order.head handedHere (order.unsentListed e below unsent ended)
    · left
      rcases order.closedEmpty _ ended with empty | cleans
      · exact empty
      · have none := noCleaning (world.owner e)
        omega
  case doneSent =>
    intro other some
    rw [moved, doneAfter] at some
    show (after.exchanges other).sent = true
    have here : other = e := by
      by_contra different
      rw [if_neg (Ne.symm different)] at some
      exact Nat.lt_irrefl 0 some
    rw [sent, if_pos here]
  case cleaningClosed =>
    intro s some
    have change := balance (cleaning s)
    have new : weigh (cleaning s) [.release .server e, .exchangeDone e] = 0 :=
      rfl
    have none := noCleaning s
    rw [moved] at some
    omega
  case closedEmpty =>
    intro s ended
    have before : (world.sessions s).closed = true := by
      rw [← sessions]
      exact ended
    left
    show (after.sessions s).list = []
    rw [sessions]
    rcases order.closedEmpty s before with empty | cleans
    · exact empty
    · have none := noCleaning s
      omega
  case single =>
    have change := balance control
    have new : weigh control [.release .server e, .exchangeDone e] = 1 := rfl
    have old : weigh control [.popResponse] = 1 := rfl
    have limit := order.single
    rw [moved]
    omega
  case toFinished =>
    constructor
    case unfinished =>
      intro other inside stillUnsent
      rcases elsewhere stillUnsent with ⟨different, unsentBefore⟩
      show after.finished.count (after.exchanges other).response = 0
      rw [response, countOther (inRange inside) different]
      exact order.unfinished other (inRange inside) unsentBefore
    case finishedOnce =>
      intro other inside
      show after.finished.count (after.exchanges other).response ≤ 1
      rw [response]
      by_cases here : other = e
      · have none := order.unfinished e below unsent
        rw [here, finished, List.count_append, none]
        split_ifs
        · exact Nat.zero_le 1
        · rw [List.count_singleton_self]
      · rw [countOther (inRange inside) here]
        exact order.finishedOnce other (inRange inside)
    case finishedOpen =>
      intro other inside marked opened
      have openedBefore :
          (world.sessions (world.owner other)).closed = false := by
        rw [← owner, ← sessions]
        exact opened
      show after.finished.count (after.exchanges other).response = 1
      rw [response]
      by_cases here : other = e
      · have none := order.unfinished e below unsent
        rw [here] at openedBefore
        rw [here, finished, List.count_append, none, openedBefore]
        simp only [Bool.false_eq_true, if_false, List.count_singleton_self]
      · rw [countOther (inRange inside) here]
        apply order.finishedOpen other (inRange inside) _ openedBefore
        have now : (after.exchanges other).sent = true := marked
        rw [sent, if_neg here] at now
        exact now
    case finishedKnown =>
      intro r member
      have inFinished : r ∈ after.finished := member
      rw [finished] at inFinished
      rcases List.mem_append.mp inFinished with before | new
      · rcases order.finishedKnown r before with ⟨other, inside, same⟩
        refine ⟨other, ?_, (response other).trans same⟩
        show other < after.nextExchange
        rw [nextExchange]
        exact inside
      · refine ⟨e, ?_, ?_⟩
        · show e < after.nextExchange
          rw [nextExchange]
          exact below
        · rw [show (after.begin thread _).exchanges e = after.exchanges e
            from rfl, response]
          split_ifs at new
          · cases new
          · exact (List.mem_singleton.mp new).symm

/-- The server's thread takes the head of a session's list, if there is one. -/
theorem order_tail
    (order : Order world)
    {new : List Op}
    {s : Nat}
    (pending : world.ops thread = op :: rest)
    (isControl : control op = 1)
    (lost :
      ∀ head, (world.sessions s).list.head? = some head →
        (world.sessions s).closed = false →
          (world.exchanges head).sent = true)
    (gone : ∀ e, 0 < doneWith e op → e ∉ (world.sessions s).list.tail)
    (elsewhereDone : ∀ e, 0 < doneWith e op → world.owner e = s)
    (refsNew : ∀ e, ¬Handed world e → weigh (refs e) new = 0)
    (startsOp : ∀ e, startsFor e op = 0)
    (startsNew : ∀ e, weigh (startsFor e) new = 0)
    (doneNew : ∀ e, weigh (doneWith e) new = 0)
    (cleaned :
      ∀ other,
        weigh (cleaning other) new = cleaning other op ∨
          weigh (cleaning other) new = 0 ∧ (after.sessions other).list = [])
    (controlNew : weigh control new ≤ 1)
    (nextExchange : after.nextExchange = world.nextExchange)
    (nextResponse : after.nextResponse = world.nextResponse)
    (requested : after.requested = world.requested)
    (finished : after.finished = world.finished)
    (ops : after.ops = world.ops)
    (owner : ∀ e, after.owner e = world.owner e)
    (response :
      ∀ e, (after.exchanges e).response = (world.exchanges e).response)
    (sent : ∀ e, (after.exchanges e).sent = (world.exchanges e).sent)
    (done :
      ∀ e, (world.exchanges e).done = true → (after.exchanges e).done = true)
    (reading :
      ∀ other, (after.sessions other).reading = (world.sessions other).reading)
    (closed :
      ∀ other, (after.sessions other).closed = (world.sessions other).closed)
    (list :
      ∀ other,
        (after.sessions other).list =
          if other = s then (world.sessions s).list.tail
          else (world.sessions other).list)
    (queueIn : after.queueIn = world.queueIn)
    (queueOut : after.queueOut = world.queueOut)
    (call : after.call = world.call)
    (contexts : after.contexts = world.contexts) :
    Order (after.begin thread (new ++ rest)) := by
  have moved :
      (after.begin thread (new ++ rest)).ops =
        setOps world.ops thread (new ++ rest) := by
    rw [← ops]
    rfl
  have balance (weight : Op → Nat) := total_perform weight new pending
  have doneBefore (e : Nat) : total (doneWith e) world.ops = doneWith e op :=
    order.alone pending isControl (doneWith_le_control e)
  have cleaningBefore (other : Nat) :
      total (cleaning other) world.ops = cleaning other op :=
    order.alone pending isControl (cleaning_le_control other)
  have doneAfter (e : Nat) :
      total (doneWith e) (setOps world.ops thread (new ++ rest)) = 0 := by
    have change := balance (doneWith e)
    have none := doneNew e
    have before := doneBefore e
    unfold weigh at none
    omega
  have cleaningAfter (other : Nat) :
      total (cleaning other) (setOps world.ops thread (new ++ rest)) =
        weigh (cleaning other) new := by
    have change := balance (cleaning other)
    have before := cleaningBefore other
    unfold weigh
    omega
  have stays : Stays world (after.begin thread (new ++ rest)) :=
    ⟨nextExchange, nextResponse, requested, owner, response, reading⟩
  have handed := stays.handed
  have inRange {e : Nat} (inside : e < after.nextExchange) :
      e < world.nextExchange := by
    rw [← nextExchange]
    exact inside
  have sublist {other e : Nat} (member : e ∈ (after.sessions other).list) :
      e ∈ (world.sessions other).list := by
    rw [list] at member
    by_cases here : other = s
    · rw [if_pos here] at member
      rw [here]
      exact List.mem_of_mem_tail member
    · rw [if_neg here] at member
      exact member
  have behind {e : Nat} (member : e ∈ (world.sessions s).list.tail) :
      ¬Handed world e := by
    rcases before : (world.sessions s).list with _ | ⟨head, next⟩
    · rw [before] at member
      cases member
    · rw [before] at member
      exact order.tail s head next before e member
  constructor
  case toNumbered => exact order.toNumbered.stays stays
  case toFinished =>
    exact
      order.toFinished.same nextExchange finished owner response sent
        closed
  case unhanded =>
    intro e inside notHanded
    have notBefore : ¬Handed world e := fun before =>
      notHanded ((handed e).mpr before)
    rcases order.unhanded e (inRange inside) notBefore with
      ⟨opened, read, unsent, nothing⟩
    refine ⟨?_, ?_, ?_, ?_⟩
    · show (after.sessions (after.owner e)).closed = false
      rw [owner, closed]
      exact opened
    · show (after.sessions (after.owner e)).reading =
        some
          { response := (after.exchanges e).response
            exchange := some e }
      rw [owner, reading, response]
      exact read
    · show (after.exchanges e).sent = false
      rw [sent]
      exact unsent
    · have change := balance (refs e)
      have none := refsNew e notBefore
      have same :
          busy (after.begin thread (new ++ rest)) e = busy world e := by
        show after.queueIn.count e + owed after.call e +
          after.queueOut.count e + after.contexts.count e = _
        rw [queueIn, call, queueOut, contexts]
        rfl
      unfold weigh at none
      rw [moved, same]
      omega
  case working =>
    intro e inside before unsent
    have unsentBefore : (world.exchanges e).sent = false := by
      rw [← sent]
      exact unsent
    have change := balance (startsFor e)
    have none := startsNew e
    have old := startsOp e
    have kept :
        workerKept (after.begin thread (new ++ rest)) e =
          workerKept world e := by
      show after.queueIn.count e + owed after.call e = _
      rw [queueIn, call]
      rfl
    unfold weigh at none
    rw [moved, kept]
    rcases order.working e (inRange inside) ((handed e).mp before)
        unsentBefore with works | waits
    · exact Or.inl (by omega)
    · right
      refine ⟨done e waits.1, ?_⟩
      show e ∈ after.queueOut
      rw [queueOut]
      exact waits.2
  case nodup =>
    intro other
    show (after.sessions other).list.Nodup
    rw [list]
    split_ifs
    · exact (order.nodup s).tail
    · exact order.nodup other
  case tail =>
    intro other head others same e member before
    have handedBefore := (handed e).mp before
    have shape : (after.sessions other).list = head :: others := same
    rw [list] at shape
    by_cases here : other = s
    · rw [if_pos here] at shape
      apply behind _ handedBefore
      rw [shape]
      exact List.mem_cons_of_mem head member
    · rw [if_neg here] at shape
      exact order.tail other head others shape e member handedBefore
  case sentListed =>
    intro e marked member
    exfalso
    have markedBefore : (world.exchanges e).sent = true := by
      rw [← sent]
      exact marked
    have inList : e ∈ (after.sessions (world.owner e)).list := by
      rw [← owner]
      exact member
    have some := order.sentListed e markedBefore (sublist inList)
    rw [doneBefore] at some
    have owned := elsewhereDone e some
    rw [list, if_pos owned] at inList
    exact gone e some inList
  case unsentListed =>
    intro e inside unsent opened
    have unsentBefore : (world.exchanges e).sent = false := by
      rw [← sent]
      exact unsent
    have openedBefore : (world.sessions (world.owner e)).closed = false := by
      rw [← owner, ← closed]
      exact opened
    have member :=
      order.unsentListed e (inRange inside) unsentBefore openedBefore
    show e ∈ (after.sessions (after.owner e)).list
    rw [owner, list]
    by_cases here : world.owner e = s
    · rw [here] at member openedBefore
      rw [if_pos here]
      rcases before : (world.sessions s).list with _ | ⟨head, next⟩
      · rw [before] at member
        cases member
      · rw [before] at member
        rcases List.mem_cons.mp member with first | later
        · have marked := lost head (by rw [before]; rfl) openedBefore
          rw [← first, unsentBefore] at marked
          cases marked
        · exact later
    · rw [if_neg here]
      exact member
  case doneHead =>
    intro e some
    rw [moved, doneAfter] at some
    cases some
  case doneSent =>
    intro e some
    rw [moved, doneAfter] at some
    cases some
  case cleaningClosed =>
    intro other some
    rw [moved, cleaningAfter] at some
    show (after.sessions other).closed = true
    rw [closed]
    apply order.cleaningClosed
    rw [cleaningBefore]
    rcases cleaned other with same | none
    · omega
    · omega
  case closedEmpty =>
    intro other ended
    have before : (world.sessions other).closed = true := by
      rw [← closed]
      exact ended
    rw [moved, cleaningAfter]
    show (after.sessions other).list = [] ∨ _
    rcases cleaned other with same | none
    · rcases order.closedEmpty other before with empty | cleans
      · left
        rw [list]
        split_ifs with here
        · rw [← here, empty]
          rfl
        · exact empty
      · right
        rw [cleaningBefore] at cleans
        omega
    · exact Or.inl none.2
  case single =>
    have change := balance control
    have limit := order.single
    unfold weigh at controlNew
    rw [moved]
    omega

end Steps

end Yimmo.Wsgi.Progress
