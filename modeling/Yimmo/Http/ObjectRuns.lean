import Yimmo.Http.ObjectLife

/-!
# The memory of a connection over its runs

The account of a connection is kept by every effect of a read in its place, by
write callbacks and calls, and is settled when the connection goes.  So over a
run nothing is freed twice, and nothing that a connection owned is left when it
is freed.

This holds as long as a read does not lose the connection to the write callback
that it runs itself, for an interim response; and as long as no read finds a
request that was answered.
-/

namespace Yimmo.Http.ObjectRuns

open Yimmo.Core.StatusCode
open Yimmo.Core.Net
open Yimmo.Lib.GuardedRun
open Yimmo.Http.Exchange
open Yimmo.Http.Parse
open Yimmo.Http.Application
open Yimmo.Http.Reader
open Yimmo.Http.ReadEffects
open Yimmo.Http.Response
open Yimmo.Http.Session
open Yimmo.Http.SessionQueue
open Yimmo.Http.Dispatch
open Yimmo.Http.DispatchEffects
open Yimmo.Http.DispatchRuns
open Yimmo.Http.ResponseOrder
open Yimmo.Http.ObjectLife

variable
    {before after : Conn}
    {effect : Effect}

/-! ## The account at each place of a read -/

/-- The exchange that is neither the session's nor held on the list. -/
def handOf (slot : Nat) : Stage → List Nat
  | .detached => [slot]
  | _ => []

/-- The account of a connection that reads, and what the response in hand
holds. -/
structure Balanced
    (slot : Nat)
    (stage : Stage)
    (conn : Conn)
    (nodes dropped : List Nat) : Prop where
  queued : Queued conn nodes
  accounts : Accounts conn nodes (handOf slot stage) dropped
  kept : stage ≠ .dropped → dropped = []
  own :
    awaits stage = true →
      ∀ id,
        conn.exchangeResponse slot = some id →
          (conn.responses id).exchange.toList = handOf slot stage

/-- The account is kept as long as the connection is there. -/
def InBalance (slot : Nat) (stage : Stage) (conn : Conn) : Prop :=
  Attached conn → ∃ nodes dropped, Balanced slot stage conn nodes dropped

theorem current_of_awaits {conn : Conn} {slot : Nat} {stage : Stage}
    (place : At conn slot stage)
    (waits : awaits stage = true) :
    ∃ id, Current conn slot id := by
  cases place with
  | answering continued id exchange current waiting => exact ⟨id, current⟩
  | handling id exchange current handled => exact ⟨id, current⟩
  | detached id exchange current handled => exact ⟨id, current⟩
  | _ => cases waits

/-- What the response in hand holds is the same after an operation that frees
nothing. -/
theorem Balanced.own_of_conserved {slot : Nat} {stage : Stage}
    {nodes dropped : List Nat}
    (balanced : Balanced slot stage before nodes dropped)
    (place : At before slot stage)
    (held :
      ∀ id,
        id < before.nextResponse →
          (after.responses id).exchange = (before.responses id).exchange)
    (same : after.exchangeResponse slot = before.exchangeResponse slot)
    (waits : awaits stage = true)
    {id : Nat}
    (own : after.exchangeResponse slot = some id) :
    (after.responses id).exchange.toList = handOf slot stage := by
  rcases current_of_awaits place waits with ⟨other, current⟩
  rw [same] at own
  have equal : other = id := Option.some.inj (current.own.symm.trans own)
  subst equal
  rw [held other current.numbered]
  exact balanced.own waits other own

/-- An operation that frees nothing and leaves the list alone. -/
theorem Balanced.conserved {slot : Nat} {stage later : Stage}
    {nodes dropped : List Nat}
    (balanced : Balanced slot stage before nodes dropped)
    (place : At before slot stage)
    (conserved : Conserved before after)
    (queued : Queued after nodes)
    (added : after.added = before.added)
    (same : after.exchangeResponse slot = before.exchangeResponse slot)
    (hand : handOf slot later = handOf slot stage)
    (waits : awaits later = true → awaits stage = true)
    (drops : later ≠ .dropped → stage ≠ .dropped) :
    Balanced slot later after nodes dropped where
  queued := queued
  accounts := by
    rw [hand]
    apply
      balanced.accounts.conserved balanced.queued.listed.ends.bounded conserved
    rw [added]
    exact balanced.accounts.outside
  kept := fun other => balanced.kept (drops other)
  own := fun later id own => by
    rw [hand]
    exact balanced.own_of_conserved place conserved.held same (waits later) own

/-- A response is hung on the list, with what it holds. -/
theorem append_accounts {before after : Conn} {nodes held hand : List Nat}
    {id : Nat}
    (accounts : Accounts before nodes (held ++ hand) [])
    (bounded : ∀ other ∈ nodes, other < before.nextResponse)
    (conserved : Conserved before after)
    (holds : (after.responses id).exchange.toList = held) :
    Accounts after (nodes ++ [id]) hand [] where
  standing := conserved.standing accounts.standing
  responses := by
    rw [conserved.freedResponses, conserved.completed]
    exact accounts.responses
  outside := fun other member => absurd member List.not_mem_nil
  once := List.nodup_nil
  exchanges := by
    have list :
        heldBy after (nodes ++ [id]) = heldBy before nodes ++ held := by
      unfold heldBy
      rw [List.flatMap_append, List.flatMap_singleton, holds]
      have same : heldBy after nodes = heldBy before nodes :=
        heldBy_congr fun other member =>
          conserved.held other (bounded other member)
      unfold heldBy at same
      rw [same]
    rw [conserved.freedExchanges, conserved.exchange,
      conserved.nextExchange, list, List.append_assoc]
    exact accounts.exchanges
  faults := by
    rw [conserved.faults, conserved.completed]
    exact accounts.faults

/-! ## Effects -/

theorem attached_perform (outcomes : List SendOutcome) (transition : Status)
    {slot : Nat}
    {stage later : Stage}
    {conn : Conn}
    {nodes : List Nat}
    (listed : Listed conn nodes)
    (place : At conn slot stage)
    (after : stage.after effect = some later)
    (attached : Attached (perform outcomes transition slot conn effect)) :
    Attached conn := by
  cases other : hangs effect with
  | false =>
      exact
        (sameList_perform outcomes transition slot listed other).attached
          attached
  | true =>
      cases effect with
      | sendContinue =>
          exact
            ((sendContinue_listed outcomes transition listed).2.exchange
              attached).1
      | errorResponse status =>
          have accessed : Listed (conn.access [.session]) nodes :=
            listed.of_rests (rests_access conn [.session])
          exact
            ((issueResponse_listed accessed HttpFlags.none
              status).2.exchange attached).1
      | addResponse =>
          have waits : awaits stage = true := by
            cases stage <;> cases after <;> rfl
          rcases current_of_awaits place waits with ⟨id, current⟩
          exact
            Appended.attached
              (addResponse_listed outcomes transition listed current).1
              attached
      | _ => exact Bool.noConfusion other

theorem conserved_fold {slot : List Nat} {operate : Conn → Nat → Conn}
    {conn : Conn}
    (kept :
      ∀ after,
        Conserved conn after →
          ∀ id ∈ slot, Conserved after (operate after id)) :
    Conserved conn (slot.foldl operate conn) := by
  have folded :
      ∀ (slot : List Nat) (after : Conn),
        (∀ after, Conserved conn after →
          ∀ id ∈ slot, Conserved after (operate after id)) →
          Conserved conn after →
            Conserved conn (slot.foldl operate after) := by
    intro slot
    induction slot with
    | nil => exact fun after _ conserved => conserved
    | cons id rest ih =>
        intro after kept conserved
        exact
          ih _
            (fun other still id member =>
              kept other still id (List.mem_cons_of_mem _ member))
            (conserved.trans (kept after conserved id List.mem_cons_self))
  exact folded slot conn kept (Conserved.refl conn)

/-- Effects that free nothing, and create no exchange. -/
def saves : Effect → Bool
  | .shown _ => true
  | .store _ => true
  | .serverState => true
  | .handler => true
  | .call _ => true
  | .protoNew _ => true
  | _ => false

/-- Effects that access the response of the exchange. -/
def reaches : Effect → Bool
  | .call _ => true
  | .protoNew _ => true
  | _ => false

theorem conserved_perform
    (outcomes : List SendOutcome)
    (transition : Status)
    (slot : Nat)
    {conn : Conn}
    (standing : Standing conn)
    (fresh :
      reaches effect = true →
        ∀ id,
          conn.exchangeResponse slot = some id → id ∉ conn.freedResponses)
    (quiet : saves effect = true) :
    Conserved conn (perform outcomes transition slot conn effect) := by
  have alive :
      reaches effect = true →
        ∀ after,
          Conserved conn after →
            ∀ id ∈ (conn.exchangeResponse slot).toList,
              id ∉ after.freedResponses := by
    intro reached after conserved id member
    rw [conserved.freedResponses]
    exact fresh reached id (Option.mem_toList.mp member)
  cases effect with
  | shown event => exact Conserved.refl conn
  | store content => exact { Conserved.refl conn with }
  | serverState =>
      rw [perform, standing.access_conn]
      exact Conserved.refl conn
  | handler => exact { Conserved.refl conn with }
  | call call =>
      apply conserved_fold
      intro after conserved id member
      exact
        conserved_callResponse (conserved.standing standing)
          (alive rfl after conserved id member) call
  | protoNew proto =>
      apply conserved_fold
      intro after conserved id member
      exact conserved_setResponse (alive rfl after conserved id member) rfl
  | _ => cases quiet

section Effects

variable
    (outcomes : List SendOutcome) (transition : Status)
    {slot : Nat} {stage : Stage} {conn : Conn}
    {nodes dropped : List Nat}

/-- The response of the exchange was not freed while it is in hand. -/
theorem Balanced.alive (balanced : Balanced slot stage conn nodes dropped)
    (undropped : stage ≠ .dropped)
    {id : Nat}
    (current : Current conn slot id) :
    id ∉ conn.freedResponses := by
  apply balanced.accounts.not_freed
  · exact balanced.accounts.not_sent balanced.queued current.fresh
  · rw [balanced.kept undropped]
    exact List.not_mem_nil

theorem balanced_newExchange
    (place : At conn slot .absent)
    (balanced : Balanced slot .absent conn nodes dropped)
    (queued :
      Queued (perform outcomes transition slot conn .newExchange) nodes) :
    Balanced slot .idle
      (perform outcomes transition slot conn .newExchange) nodes
      dropped := by
  have accounts := balanced.accounts
  have standing := accounts.standing
  cases place with
  | absent exchange number answered =>
      refine
        { queued := queued
          accounts := ?_
          kept := fun _ => balanced.kept Stage.noConfusion
          own := fun waits => Bool.noConfusion waits }
      rw [perform, standing.access_session]
      refine
        { standing := ⟨standing.attached, standing.session⟩
          responses := accounts.responses
          outside := accounts.outside
          once := accounts.once
          exchanges := ?_
          faults := accounts.faults }
      dsimp only
      have owned := accounts.exchanges
      rw [exchange standing.attached, number] at owned
      rw [List.range_succ]
      apply perm_of_count (List.Perm.append_right [slot] owned)
      intro other
      have same :
          heldBy
              { conn with
                exchange := some slot
                nextExchange := slot + 1
                exchangeResponse :=
                  Function.update conn.exchangeResponse slot none }
              nodes =
            heldBy conn nodes :=
        rfl
      simp only [same, handOf, Option.toList_some, Option.toList_none,
        List.count_append, List.count_nil]
      omega

theorem exchange_ymoHttpSessionInitResponse (flags : HttpFlags) :
    (ymoHttpSessionInitResponse flags).exchange = none := by
  unfold ymoHttpSessionInitResponse
  dsimp only
  split
  · split <;> rfl
  · split <;> rfl

theorem balanced_initResponse
    (balanced : Balanced slot .idle conn nodes dropped)
    (flags : HttpFlags)
    (queued :
      Queued
        (perform outcomes transition slot conn (.initResponse flags))
        nodes) :
    Balanced slot (.answering false)
      (perform outcomes transition slot conn (.initResponse flags))
      nodes dropped := by
  have conserved :
      Conserved conn
        (perform outcomes transition slot conn (.initResponse flags)) := by
    refine
      { Conserved.refl conn with
        nextResponse := Nat.le_succ _
        held := ?_ }
    intro id early
    simp only [perform, Function.update_of_ne (Nat.ne_of_lt early)]
  refine
    { queued := queued
      accounts :=
        balanced.accounts.conserved balanced.queued.listed.ends.bounded
          conserved balanced.accounts.outside
      kept := fun _ => balanced.kept Stage.noConfusion
      own := ?_ }
  intro _ id own
  simp only [perform, Function.update_self] at own
  cases own
  simp only [perform, Function.update_self,
    exchange_ymoHttpSessionInitResponse]
  rfl

theorem balanced_detachExchange
    (place : At conn slot .handling)
    (balanced : Balanced slot .handling conn nodes dropped)
    (queued :
      Queued (perform outcomes transition slot conn .detachExchange) nodes) :
    Balanced slot .detached
      (perform outcomes transition slot conn .detachExchange) nodes
      dropped := by
  have accounts := balanced.accounts
  have standing := accounts.standing
  cases place with
  | handling id exchange current handled =>
      have called :
          perform outcomes transition slot conn .detachExchange =
            { conn.setResponse id
                { conn.responses id with exchange := conn.exchange } with
              exchange := none } := by
        simp only [perform, current.own]
        rfl
      have alive := balanced.alive Stage.noConfusion current
      have faults :
          (conn.setResponse id
              { conn.responses id with exchange := conn.exchange }).faults =
            conn.faults := by
        have missed : [Object.response id].filter conn.freed = [] := by
          rw [List.filter_cons_of_neg, List.filter_nil]
          rw [Conn.freed, List.contains_iff_mem]
          exact alive
        rw [Conn.setResponse, missed, List.append_nil]
      have session := exchange standing.attached
      rw [called] at queued ⊢
      refine
        { queued := queued
          accounts := ?_
          kept := fun _ => balanced.kept Stage.noConfusion
          own := ?_ }
      · refine
          { standing := ⟨standing.attached, standing.session⟩
            responses := accounts.responses
            outside := accounts.outside
            once := accounts.once
            exchanges := ?_
            faults := faults.trans accounts.faults }
        have owned := accounts.exchanges
        rw [session] at owned
        have list :
            heldBy
                { conn.setResponse id
                    { conn.responses id with exchange := conn.exchange } with
                  exchange := none }
                nodes =
              heldBy conn nodes := by
          apply heldBy_congr
          intro other member
          have different : other ≠ id := by
            rintro rfl
            exact current.fresh (balanced.queued.listed.members _ member)
          simp only [Conn.setResponse, Function.update_of_ne different]
        rw [list]
        apply perm_of_count owned
        intro other
        simp only [Conn.setResponse, handOf, Option.toList_some,
          Option.toList_none, List.count_append, List.count_nil]
        omega
      · intro _ other own
        cases current.own.symm.trans own
        simp only [Conn.setResponse, Function.update_self, session]
        rfl

theorem balanced_freeResponse
    (place : At conn slot .handling)
    (balanced : Balanced slot .handling conn nodes dropped)
    (queued :
      Queued (perform outcomes transition slot conn .freeResponse) nodes) :
    ∃ id,
      Balanced slot .dropped
        (perform outcomes transition slot conn .freeResponse) nodes
        [id] := by
  have accounts := balanced.accounts
  have standing := accounts.standing
  cases place with
  | handling id exchange current handled =>
      have called :
          perform outcomes transition slot conn .freeResponse =
            ymoHttpResponseFree conn id := by
        simp only [perform, current.own]
        rfl
      have alive := balanced.alive Stage.noConfusion current
      have accessed : conn.access [.response id] = conn := by
        apply standing.access
        intro other member
        cases List.mem_singleton.mp member
        exact alive
      have none : (conn.responses id).exchange.toList = [] :=
        balanced.own rfl id current.own
      rw [called, ymoHttpResponseFree, accessed, none, List.append_nil]
        at queued
      refine ⟨id, ?_⟩
      rw [called, ymoHttpResponseFree, accessed, none, List.append_nil]
      refine
        { queued := queued
          accounts := ?_
          kept := fun other => absurd rfl other
          own := fun waits => Bool.noConfusion waits }
      refine
        { standing := ⟨standing.attached, standing.session⟩
          responses := ?_
          outside := ?_
          once := List.nodup_singleton id
          exchanges := accounts.exchanges
          faults := accounts.faults }
      · dsimp only
        rw [accounts.responses, balanced.kept Stage.noConfusion,
          List.append_nil]
      · intro other member
        cases List.mem_singleton.mp member
        exact current.fresh

/-- A response of the library is put on the list. -/
theorem Balanced.issued (balanced : Balanced slot stage conn nodes dropped)
    (place : At conn slot stage)
    (undropped : stage ≠ .dropped)
    (flags : HttpFlags)
    (status : Nat) :
    Balanced slot stage (issueResponse flags status conn)
      (nodes ++ [conn.nextResponse]) [] := by
  have accounts := balanced.accounts
  have listed := balanced.queued.listed
  have none := balanced.kept undropped
  subst none
  have unused : conn.nextResponse ∉ conn.freedResponses := by
    apply accounts.not_freed
    · apply accounts.not_sent balanced.queued
      exact fun member => Nat.lt_irrefl _ (listed.numbered _ member)
    · exact List.not_mem_nil
  have conserved :=
    conserved_issueResponse accounts.standing listed
      (accounts.fresh balanced.queued) unused flags status
  have same :
      (issueResponse flags status conn).exchangeResponse =
        conn.exchangeResponse :=
    (books_issueResponse flags status conn).exchangeResponse
  refine
    { queued := queued_issueResponse balanced.queued flags status
      accounts := ?_
      kept := fun _ => rfl
      own := ?_ }
  · apply
      @append_accounts conn _ nodes [] (handOf slot stage) _ accounts
        listed.ends.bounded conserved
    rw [exchange_issueResponse flags status listed]
    rfl
  · intro waits id own
    exact
      balanced.own_of_conserved place conserved.held
        (congrFun same slot) waits own

theorem balanced_errorResponse (later : Stage) (place : At conn slot stage)
    (balanced : Balanced slot stage conn nodes dropped)
    (undropped : stage ≠ .dropped)
    (hand : handOf slot later = handOf slot stage)
    (waits : awaits later = true → awaits stage = true)
    (status : Nat) :
    ∃ rest,
      Balanced slot later
        (perform outcomes transition slot conn (.errorResponse status))
        rest [] := by
  have issued := balanced.issued place undropped HttpFlags.none status
  rw [perform, balanced.accounts.standing.access_session]
  exact
    ⟨_,
      { queued := issued.queued
        accounts := by
          rw [hand]
          exact issued.accounts
        kept := fun _ => rfl
        own := fun later id own => by
          rw [hand]
          exact issued.own (waits later) id own }⟩

/-- The interim response, with the write callback that sends it. -/
theorem balanced_sendContinue
    (place : At conn slot (.answering false))
    (balanced : Balanced slot (.answering false) conn nodes dropped)
    (attached :
      Attached (perform outcomes transition slot conn .sendContinue)) :
    ∃ rest,
      Balanced slot (.answering true)
        (perform outcomes transition slot conn .sendContinue) rest
        [] := by
  have issued :=
    balanced.issued place Stage.noConfusion
      { HttpFlags.none with requestKeepalive := true } 100
  have conserved :
      ∀ id,
        id < conn.nextResponse →
          ((perform outcomes transition slot conn
              .sendContinue).responses id).exchange =
            ((issueResponse
                { HttpFlags.none with requestKeepalive := true } 100
                conn).responses id).exchange := by
    intro id _
    exact
      congrArg Links.exchange
        ((untouched_ymoWriteCb outcomes transition _).links id)
  have same :
      (perform outcomes transition slot conn
          .sendContinue).exchangeResponse =
        (issueResponse
            { HttpFlags.none with requestKeepalive := true } 100
            conn).exchangeResponse :=
    (untouched_ymoWriteCb outcomes transition _).exchangeResponse
  have books :=
    books_issueResponse
      { HttpFlags.none with requestKeepalive := true } 100 conn
  rcases
      issued.accounts.written issued.queued outcomes transition
    with ended | ⟨rest, queued, accounts⟩
  · exact absurd attached ended.left
  · refine
      ⟨rest,
        { queued := queued
          accounts := accounts
          kept := fun _ => rfl
          own := ?_ }⟩
    intro _ id own
    rcases current_of_awaits place rfl with ⟨other, current⟩
    rw [same] at own
    have equal : other = id :=
      Option.some.inj
        (current.own.symm.trans
          ((congrFun books.exchangeResponse slot).symm.trans own))
    subst equal
    rw [conserved other current.numbered]
    exact issued.own rfl other own

/-- The response in hand is put on the list, with the exchange it holds. -/
theorem balanced_addResponse (later : Stage) (place : At conn slot stage)
    (balanced : Balanced slot stage conn nodes dropped)
    (undropped : stage ≠ .dropped)
    (waits : awaits stage = true)
    (hand : handOf slot later = [])
    (settled : awaits later = false) :
    ∃ rest,
      Balanced slot later
        (perform outcomes transition slot conn .addResponse) rest [] := by
  have accounts := balanced.accounts
  have listed := balanced.queued.listed
  have none := balanced.kept undropped
  subst none
  rcases current_of_awaits place waits with ⟨id, current⟩
  rcases
      addResponse_listed outcomes transition listed current
    with ⟨appended, longer⟩
  have called :
      perform outcomes transition slot conn .addResponse =
        ymoHttpSessionAddResponse conn id := by
    simp only [perform, current.own]
    rfl
  have conserved :
      Conserved conn (perform outcomes transition slot conn .addResponse) := by
    rw [called]
    exact
      conserved_ymoHttpSessionAddResponse accounts.standing listed.ends
        (accounts.fresh balanced.queued) id
  refine
    ⟨nodes ++ [id],
      { queued := ⟨longer, fun attached => ?_⟩
        accounts := ?_
        kept := fun _ => rfl
        own := fun waiting => ?_ }⟩
  · rw [appended.added, appended.completed,
      balanced.queued.order (Appended.attached appended attached),
      List.append_assoc]
  · rw [hand]
    apply
      @append_accounts conn _ nodes (handOf slot stage) [] id _
        listed.ends.bounded conserved
    · rw [conserved.held id current.numbered]
      exact balanced.own waits id current.own
    · rw [List.append_nil]
      exact accounts
  · rw [settled] at waiting
    cases waiting

end Effects

/-- Every effect in its place keeps the account. -/
theorem inBalance_perform (outcomes : List SendOutcome) (transition : Status)
    {slot : Nat}
    {stage later : Stage}
    {conn : Conn}
    (placed : Placed slot stage conn)
    (after : stage.after effect = some later)
    (balance : InBalance slot stage conn) :
    InBalance slot later (perform outcomes transition slot conn effect) := by
  rcases placed with ⟨⟨others, listed⟩, place⟩
  intro attached
  have before :=
    attached_perform outcomes transition listed place after attached
  rcases balance before with ⟨nodes, dropped, balanced⟩
  have accounts := balanced.accounts
  have same :
      hangs effect = false →
        Queued (perform outcomes transition slot conn effect) nodes :=
    fun other =>
      balanced.queued.same
        (sameList_perform outcomes transition slot
          balanced.queued.listed other)
        (placed_perform outcomes transition ⟨⟨others, listed⟩, place⟩ after).1
  have saving :
      saves effect = true →
        hangs effect = false →
          (reaches effect = true →
            stage ≠ .dropped ∧ awaits stage = true) →
            handOf slot later = handOf slot stage →
              (awaits later = true → awaits stage = true) →
                (later ≠ .dropped → stage ≠ .dropped) →
                  (∀ flags, effect ≠ .initResponse flags) →
                    effect ≠ .newExchange →
                      Balanced slot later
                        (perform outcomes transition slot conn effect)
                        nodes dropped := by
    intro quiet other reached hand waits drops init new
    have fresh :
        reaches effect = true →
          ∀ id, conn.exchangeResponse slot = some id →
            id ∉ conn.freedResponses := by
      intro accesses id own
      rcases reached accesses with ⟨undropped, awaited⟩
      rcases current_of_awaits place awaited with ⟨held, current⟩
      cases current.own.symm.trans own
      exact balanced.alive undropped current
    exact
      balanced.conserved place
        (conserved_perform outcomes transition slot accounts.standing
          fresh quiet)
        (same other)
        (sameList_perform outcomes transition slot
          balanced.queued.listed other).added
        (congrFun
          (exchangeResponse_perform outcomes transition slot conn init new)
          slot)
        hand waits drops
  cases effect with
  | shown event =>
      have stays : stage = later := by
        cases stage <;> exact Option.some.inj after
      subst stays
      exact
        ⟨nodes, dropped,
          saving rfl rfl (fun reached => Bool.noConfusion reached) rfl
            (fun waits => waits) (fun other => other)
            (fun _ => Effect.noConfusion) Effect.noConfusion⟩
  | store content =>
      have stays : stage = later := by
        cases stage <;> exact Option.some.inj after
      subst stays
      exact
        ⟨nodes, dropped,
          saving rfl rfl (fun reached => Bool.noConfusion reached) rfl
            (fun waits => waits) (fun other => other)
            (fun _ => Effect.noConfusion) Effect.noConfusion⟩
  | serverState =>
      have stays : stage = later := by
        cases stage <;> exact Option.some.inj after
      subst stays
      exact
        ⟨nodes, dropped,
          saving rfl rfl (fun reached => Bool.noConfusion reached) rfl
            (fun waits => waits) (fun other => other)
            (fun _ => Effect.noConfusion) Effect.noConfusion⟩
  | handler =>
      cases stage <;> cases after
      exact
        ⟨nodes, dropped,
          saving rfl rfl (fun reached => Bool.noConfusion reached) rfl
            (fun _ => rfl) (fun _ => Stage.noConfusion)
            (fun _ => Effect.noConfusion) Effect.noConfusion⟩
  | call call =>
      have stays : stage = later := by cases stage <;> cases after <;> rfl
      have waits : awaits stage = true := by
        cases stage <;> cases after <;> rfl
      have undropped : stage ≠ .dropped := by
        rintro rfl
        cases waits
      subst stays
      exact
        ⟨nodes, dropped,
          saving rfl rfl (fun _ => ⟨undropped, waits⟩) rfl
            (fun waits => waits) (fun other => other)
            (fun _ => Effect.noConfusion) Effect.noConfusion⟩
  | protoNew proto =>
      cases stage <;> cases after
      exact
        ⟨nodes, dropped,
          saving rfl rfl (fun _ => ⟨Stage.noConfusion, rfl⟩) rfl
            (fun waits => waits) (fun other => other)
            (fun _ => Effect.noConfusion) Effect.noConfusion⟩
  | newExchange =>
      cases stage <;> cases after
      exact
        ⟨nodes, dropped,
          balanced_newExchange outcomes transition place balanced (same rfl)⟩
  | initResponse flags =>
      cases stage <;> cases after
      exact
        ⟨nodes, dropped,
          balanced_initResponse outcomes transition balanced flags (same rfl)⟩
  | sendContinue =>
      cases stage with
      | answering continued =>
          cases continued <;> cases after
          rcases
              balanced_sendContinue outcomes transition place balanced attached
            with ⟨rest, still⟩
          exact ⟨rest, [], still⟩
      | _ => cases after
  | errorResponse status =>
      cases stage with
      | idle =>
          simp only [Stage.after] at after
          split at after
          · cases after
            rcases
                balanced_errorResponse outcomes transition .refused place
                  balanced Stage.noConfusion rfl
                  (fun waits => Bool.noConfusion waits) status
              with ⟨rest, still⟩
            exact ⟨rest, [], still⟩
          · cases after
      | answering continued =>
          cases after
          rcases
              balanced_errorResponse outcomes transition
                (.answering continued) place balanced Stage.noConfusion
                rfl (fun waits => waits) status
            with ⟨rest, still⟩
          exact ⟨rest, [], still⟩
      | _ => cases after
  | detachExchange =>
      cases stage <;> cases after
      exact
        ⟨nodes, dropped,
          balanced_detachExchange outcomes transition place balanced
            (same rfl)⟩
  | addResponse =>
      cases stage <;> cases after
      · rcases
            balanced_addResponse outcomes transition .settled place
              balanced Stage.noConfusion rfl rfl rfl
          with ⟨rest, still⟩
        exact ⟨rest, [], still⟩
      · rcases
            balanced_addResponse outcomes transition .gone place
              balanced Stage.noConfusion rfl rfl rfl
          with ⟨rest, still⟩
        exact ⟨rest, [], still⟩
  | freeResponse =>
      cases stage <;> cases after
      rcases
          balanced_freeResponse outcomes transition place balanced (same rfl)
        with ⟨id, freed⟩
      exact ⟨nodes, [id], freed⟩

/-! ## Between two steps -/

/-- The account of a connection that waits; the response of a request whose body
is being read holds no exchange. -/
structure Solvent (conn : Conn) : Prop where
  balanced : ∃ nodes, Queued conn nodes ∧ Accounts conn nodes [] []
  own :
    conn.live = true →
      ∀ slot,
        conn.exchange = some slot →
          unanswered (conn.exchanges slot) = true →
            ∀ id,
              conn.exchangeResponse slot = some id →
                (conn.responses id).exchange = none

/-- The account is kept, or was settled. -/
def Ledger (conn : Conn) : Prop :=
  Solvent conn ∨ Ended conn

theorem solvent_of_live {conn : Conn} (ledger : Ledger conn)
    (live : conn.live = true) :
    Solvent conn := by
  rcases ledger with solvent | ended
  · exact solvent
  · exact absurd (attached_of_live live) ended.left

theorem ledger_create : Ledger Conn.create := by
  rcases ordered_create.queued with ⟨nodes, queued⟩
  have empty : nodes = [] := Listed.unique queued.listed .nil
  subst empty
  refine .inl ⟨⟨[], queued, ?_⟩, ?_⟩
  · exact
      { standing := ⟨⟨rfl, rfl⟩, rfl⟩
        responses := rfl
        outside := fun id member => absurd member List.not_mem_nil
        once := List.nodup_nil
        exchanges := List.Perm.nil
        faults := rfl }
  · intro _ slot exchange
    cases exchange

/-- A request whose body is being read has its response in hand. -/
theorem current_of_between {conn : Conn} (between : Between conn) {slot : Nat}
    (exchange : conn.exchange = some slot)
    (waiting : unanswered (conn.exchanges slot) = true) :
    ∃ id, Current conn slot id := by
  have answered :
      ∀ other,
        conn.exchange = some other →
          unanswered (conn.exchanges other) ≠ false := by
    intro other same
    cases exchange.symm.trans same
    rw [waiting]
    exact Bool.noConfusion
  cases between with
  | absent none _ => cases exchange.symm.trans none
  | head other same _ _ idle _ => exact absurd idle (answered other same)
  | body other id same _ _ _ current _ =>
      cases exchange.symm.trans same
      exact ⟨id, current⟩
  | done other id same _ idle _ _ _ => exact absurd idle (answered other same)
  | refused other same _ idle _ => exact absurd idle (answered other same)

/-- A step that frees nothing and reads nothing keeps the account. -/
theorem Solvent.conserved (solvent : Solvent before) (between : Between before)
    (live : before.live = true)
    (conserved : Conserved before after)
    (same : SameList before after)
    (listed : ∀ nodes, Listed before nodes → ∃ rest, Listed after rest)
    (exchanges : after.exchanges = before.exchanges)
    (exchangeResponse : after.exchangeResponse = before.exchangeResponse) :
    Solvent after := by
  rcases solvent.balanced with ⟨nodes, queued, accounts⟩
  refine ⟨⟨nodes, ?_, ?_⟩, ?_⟩
  · exact queued.same same (listed nodes queued.listed)
  · exact
      accounts.conserved queued.listed.ends.bounded conserved
        fun id member => absurd member List.not_mem_nil
  · intro _ slot exchange waiting id own
    rw [conserved.exchange] at exchange
    rw [exchanges] at waiting
    rw [exchangeResponse] at own
    rcases current_of_between between exchange waiting with ⟨other, current⟩
    cases current.own.symm.trans own
    rw [conserved.held _ current.numbered]
    exact solvent.own live slot exchange waiting _ own

/-- What is left of a call keeps the account, or settles it. -/
theorem Balanced.settled {slot : Nat} {stage : Stage} {conn : Conn}
    {nodes dropped : List Nat}
    (balanced : Balanced slot stage conn nodes dropped)
    (place : At conn slot stage)
    {result : ReadResult}
    (leaves : Leaves result (conn.exchanges slot) stage) :
    Ledger (settleRead result.outcome slot conn) := by
  have accounts := balanced.accounts
  have attached := accounts.standing.attached
  have hand : handOf slot stage = [] := by cases leaves <;> rfl
  rw [hand] at accounts
  have owned :
      stage ≠ .dropped →
        ∀ other,
          conn.exchange = some other →
            unanswered (conn.exchanges other) = true →
              ∀ id,
                conn.exchangeResponse other = some id →
                  (conn.responses id).exchange = none := by
    intro undropped other exchange waiting id own
    have contradicts :
        conn.exchange = some slot →
          unanswered (conn.exchanges slot) = false →
            (conn.responses id).exchange = none := by
      intro same idle
      cases exchange.symm.trans same
      exact absurd (waiting.symm.trans idle) (by decide)
    cases leaves with
    | idle _ idle _ =>
        cases place with
        | idle session _ => exact contradicts (session attached) idle
    | refused _ idle =>
        cases place with
        | refused session _ _ => exact contradicts (session attached) idle
    | answering continued _ _ _ _ =>
        cases place with
        | answering _ _ session _ _ =>
            cases exchange.symm.trans (session attached)
            have none := balanced.own rfl id own
            rw [hand] at none
            cases held : (conn.responses id).exchange with
            | none => rfl
            | some number =>
                rw [held] at none
                cases none
    | settled _ idle _ =>
        cases place with
        | settled _ session _ _ _ => exact contradicts (session attached) idle
    | gone _ =>
        cases place with
        | gone session _ => cases exchange.symm.trans (session attached)
    | dropped _ _ _ => exact absurd rfl undropped
  have keeps :
      ∀ after : Conn,
        stage ≠ .dropped →
          Conserved conn after →
            SameList conn after →
              (∃ rest, Listed after rest) →
                after.exchanges = conn.exchanges →
                  after.exchangeResponse = conn.exchangeResponse →
                    after.responses = conn.responses →
                      Ledger after := by
    intro after undropped conserved same listed exchanges slots responses
    have none := balanced.kept undropped
    subst none
    refine
      .inl
        ⟨⟨nodes, balanced.queued.same same listed,
          accounts.conserved balanced.queued.listed.ends.bounded
            conserved
            fun id member => absurd member List.not_mem_nil⟩, ?_⟩
    intro _ other exchange waiting id own
    rw [conserved.exchange] at exchange
    rw [exchanges] at waiting
    rw [slots] at own
    rw [responses]
    exact owned undropped other exchange waiting id own
  have lists :
      ∀ after : Conn, Settles conn after → ∃ rest, Listed after rest := by
    intro after settles
    rcases settles.queued ⟨nodes, balanced.queued⟩ with ⟨rest, queued⟩
    exact ⟨rest, queued.listed⟩
  have settles :=
    (settles_settleRead result.outcome slot balanced.queued.listed).1
  have undropped :
      (∀ errno,
        result.outcome = .failed errno → ymoIsBlocked (.err errno) = true) →
        stage ≠ .dropped := by
    rintro blocked rfl
    cases leaves with
    | dropped errno outcome fatal =>
        exact absurd ((blocked errno outcome).symm.trans fatal) (by decide)
  cases outcome : result.outcome with
  | took count =>
      rw [outcome] at settles undropped
      have found := lists _ settles
      have away := undropped fun errno failed => ReadOutcome.noConfusion failed
      rw [settleRead] at found ⊢
      rw [accounts.standing.access_conn] at found ⊢
      exact
        keeps _ away { Conserved.refl conn with }
          ⟨rfl, fun _ _ => rfl, rfl, rfl, fun attached => attached⟩
          found rfl rfl rfl
  | failed errno =>
      rw [outcome] at settles undropped
      have declined : Queued (declining slot conn) nodes := by
        have listed : Listed (declining slot conn) nodes :=
          balanced.queued.listed.transport rfl (fun _ _ => rfl)
            (Nat.le_refl _) rfl rfl rfl (fun _ member => .inl member)
            rfl fun attached => attached
        exact ⟨listed, balanced.queued.order⟩
      cases blocked : ymoIsBlocked (.err errno) with
      | true =>
          have settled :
              settleRead (.failed errno) slot conn = declining slot conn := by
            simp only [settleRead, blocked]
            rfl
          rw [settled]
          refine
            keeps _ (undropped ?_) { Conserved.refl conn with }
              ⟨rfl, fun _ _ => rfl, rfl, rfl, fun attached => attached⟩
              ⟨nodes, declined.listed⟩ rfl rfl rfl
          intro other same
          cases same
          exact blocked
      | false =>
          have settled :
              settleRead (.failed errno) slot conn =
                closeAndFreeConnection (declining slot conn) := by
            simp only [settleRead, blocked]
            rfl
          have still : Accounts (declining slot conn) nodes [] dropped :=
            accounts.conserved balanced.queued.listed.ends.bounded
              { Conserved.refl conn with } accounts.outside
          rw [settled]
          exact .inr (still.closed declined)
  | fault =>
      rw [outcome] at settles undropped
      exact
        keeps _
          (undropped fun errno failed => ReadOutcome.noConfusion failed)
          { Conserved.refl conn with }
          ⟨rfl, fun _ _ => rfl, rfl, rfl, fun attached => attached⟩
          (lists _ settles) rfl rfl rfl
  | spin =>
      rw [outcome] at settles undropped
      exact
        keeps _
          (undropped fun errno failed => ReadOutcome.noConfusion failed)
          { Conserved.refl conn with }
          ⟨rfl, fun _ _ => rfl, rfl, rfl, fun attached => attached⟩
          (lists _ settles) rfl rfl rfl

/-! ## Steps -/

/-- A read call that is made does not lose its connection: the write callback
that it runs for an interim response neither closes it nor hands it over. -/
def keepsConnection (protoData : HttpProtoData) (conn : Conn) :
    Step → Prop
  | .read outcomes transition =>
      conn.live = true →
        conn.pending.len ≠ 0 →
          Attached (performed protoData outcomes transition conn)
  | _ => True

instance decidableKeepsConnection
    (protoData : HttpProtoData)
    (conn : Conn) :
    ∀ step, Decidable (keepsConnection protoData conn step)
  | .read outcomes transition =>
      inferInstanceAs
        (Decidable
          (conn.live = true →
            conn.pending.len ≠ 0 →
              (performed protoData outcomes transition
                  conn).connFrees = 0 ∧
                (performed protoData outcomes transition
                  conn).handedOver = false))
  | .receive _ _ => .isTrue trivial
  | .disconnect => .isTrue trivial
  | .writable _ _ => .isTrue trivial
  | .call _ _ => .isTrue trivial

theorem Solvent.rests (solvent : Solvent before) (between : Between before)
    (live : before.live = true)
    (conserved : Conserved before after)
    (rests : Rests before after) :
    Solvent after :=
  solvent.conserved between live conserved (Rests.sameList rests)
    (fun nodes listed => ⟨nodes, listed.of_rests rests⟩)
    rests.exchanges rests.exchangeResponse

theorem Solvent.writable {conn : Conn} (solvent : Solvent conn)
    (live : conn.live = true)
    (outcomes : List SendOutcome)
    (transition : Status) :
    Ledger (ymoWriteCb outcomes transition conn) := by
  rcases solvent.balanced with ⟨nodes, queued, accounts⟩
  have untouched := untouched_ymoWriteCb outcomes transition conn
  have outgoing := ymoWriteCb_outgoing outcomes transition queued.listed.ends
  rcases accounts.written queued outcomes transition
    with ended | ⟨rest, still, kept⟩
  · exact .inr ended
  · refine .inl ⟨⟨rest, still, kept⟩, ?_⟩
    intro _ slot exchange waiting id own
    rw [((Outgoing.steady outgoing).exchange kept.standing.attached).2]
      at exchange
    rw [untouched.exchanges] at waiting
    rw [untouched.exchangeResponse] at own
    have held :
        ((ymoWriteCb outcomes transition conn).responses id).exchange =
          (conn.responses id).exchange :=
      congrArg Links.exchange (untouched.links id)
    rw [held]
    exact solvent.own live slot exchange waiting id own

theorem Solvent.call {conn : Conn} (solvent : Solvent conn)
    (between : Between conn)
    (live : conn.live = true)
    {id : Nat}
    (held : conn.holds id = true)
    (call : ResponseCall) :
    Solvent (callResponse conn id call) := by
  rcases solvent.balanced with ⟨nodes, queued, accounts⟩
  have fresh : id ∉ conn.freedResponses := by
    simp only [Conn.holds, Bool.and_eq_true, Bool.not_eq_true',
      List.contains_eq_mem, decide_eq_false_iff_not] at held
    exact held.1.1.2
  exact
    solvent.conserved between live
      (conserved_callResponse accounts.standing fresh call)
      (sameList_callResponse conn id call)
      (fun nodes listed => ⟨nodes, listed.call id call⟩) rfl rfl

theorem Solvent.read (protoData : HttpProtoData) (outcomes : List SendOutcome)
    (transition : Status)
    {conn : Conn}
    (dispatching : Dispatching conn)
    (solvent : Solvent conn)
    (live : conn.live = true)
    (left : conn.pending.len ≠ 0)
    (unfinished : findsAnswered conn = false)
    (attached : Attached (performed protoData outcomes transition conn)) :
    Ledger (readCbTurn protoData outcomes transition conn) := by
  rcases solvent.balanced with ⟨nodes, queued, accounts⟩
  have accessed := accounts.standing.access_session
  cases error : conn.error with
  | true =>
      have called :
          conn.read protoData =
            { outcome := .took conn.pending.len
              exchange := conn.exchange.map conn.exchanges
              state := { error := true, effects := [] } } := by
        rw [Conn.read, error]
        rfl
      have rests :=
        rests_readCbTurn_of_error protoData outcomes transition error
      refine .inl (solvent.rests (dispatching.between live) live ?_ rests)
      rw [readCbTurn_eq, performed, called]
      dsimp only [List.foldl_nil]
      rw [accessed, settleRead, accounts.standing.access_conn]
      exact { Conserved.refl conn with }
  | false =>
      rcases
        callStages_of_dispatching protoData dispatching live left error
          unfinished
        with ⟨start, stage, content, call⟩
      have begins : InBalance conn.readExchange start
          (conn.access [.session]) := by
        intro _
        rw [accessed]
        have starts := call.starts
        have plain : handOf conn.readExchange start = [] := by
          generalize conn.exchange.map conn.exchanges = session at starts
          cases starts <;> rfl
        refine
          ⟨nodes, [],
            { queued := queued
              accounts := by
                rw [plain]
                exact accounts
              kept := fun _ => rfl
              own := ?_ }⟩
        intro waits id own
        rw [plain]
        cases exchange : conn.exchange with
        | none =>
            rw [exchange] at starts
            cases starts
            cases waits
        | some slot =>
            have slotted : conn.readExchange = slot := by
              rw [Conn.readExchange, exchange]
              rfl
            rw [exchange] at starts
            rw [slotted] at own
            generalize same :
              (some slot).map conn.exchanges = session at starts
            cases starts with
            | absent => cases waits
            | head phase answered => cases waits
            | body phase waiting =>
                cases same
                rw [solvent.own live slot exchange waiting id own]
                rfl
      have arrived :
          Placed conn.readExchange stage
            (performed protoData outcomes transition conn) :=
        placed_follow outcomes transition call.placed call.followed
      have balance :
          InBalance conn.readExchange stage
            (performed protoData outcomes transition conn) :=
        follow_invariant outcomes transition
          (InBalance conn.readExchange)
          (fun _ _ _ _ placed after held =>
            inBalance_perform outcomes transition placed after held)
          call.placed call.followed begins
      have stays :
          (performed protoData outcomes transition conn).exchanges
              conn.readExchange =
            content :=
        exchanges_performAll outcomes transition conn.readExchange
          (conn.read protoData).state.effects call.last
          (conn.access [.session])
      have leaves := call.leaves
      rw [← stays] at leaves
      rcases balance attached with ⟨list, dropped, balanced⟩
      rw [readCbTurn_eq]
      exact balanced.settled arrived.2 leaves

theorem Ledger.step (protoData : HttpProtoData) {conn : Conn}
    (dispatching : Dispatching conn)
    (ledger : Ledger conn)
    (step : Step)
    (unfinished : offersAnswered conn step = false)
    (keeps : keepsConnection protoData conn step) :
    Ledger (connStep protoData conn step) := by
  unfold connStep
  split
  · rename_i live
    have solvent := solvent_of_live ledger live
    have between := dispatching.between live
    split
    · cases step with
      | receive data older =>
          dsimp only
          split
          · exact
              .inl
                (solvent.rests between live
                  { Conserved.refl conn with }
                  { Rests.refl conn with })
          · exact ledger
      | read outcomes transition => exact ledger
      | disconnect =>
          rcases solvent.balanced with ⟨nodes, queued, accounts⟩
          exact .inr (accounts.closed queued)
      | writable outcomes transition =>
          exact solvent.writable live outcomes transition
      | call id call =>
          dsimp only
          split
          · rename_i allowed
            exact
              .inl
                (solvent.call between live
                  (Bool.and_eq_true_iff.mp allowed).1 call)
          · exact ledger
    · rename_i left
      cases step with
      | read outcomes transition =>
          simp only [offersAnswered, live, left, ne_eq,
            not_false_eq_true, decide_true, Bool.true_and] at unfinished
          exact
            solvent.read protoData outcomes transition dispatching live
              left unfinished (keeps live left)
      | _ => exact ledger
  · exact ledger

/-! ## Runs -/

/--
Over every run whose reads find no answered request and do not lose their
connection: no exchange and no response is freed twice, the session and the
connection are freed at most once, and the only accesses to what was freed are
those of the write callback, one to each response that it has just sent.  When
the session is freed, every exchange that was created was freed, and every
response that was put on the list.
-/
theorem freed_once
    (protoData : HttpProtoData)
    (steps : List Step)
    (once :
      AllAlong (connStep protoData)
        (fun conn step =>
          offersAnswered conn step = false ∧
            keepsConnection protoData conn step)
        Conn.create steps) :
    let conn := run (connStep protoData) Conn.create steps
    conn.freedExchanges.Nodup ∧
      conn.freedResponses.Nodup ∧
        conn.sessionFrees ≤ 1 ∧
          conn.connFrees ≤ conn.sessionFrees ∧
            conn.faults = conn.completed.map .response ∧
              (conn.sessionFrees = 1 →
                (∀ slot, slot < conn.nextExchange →
                  slot ∈ conn.freedExchanges) ∧
                  ∀ id ∈ conn.added, id ∈ conn.freedResponses) := by
  have kept :
      Dispatching (run (connStep protoData) Conn.create steps) ∧
        Ledger (run (connStep protoData) Conn.create steps) := by
    apply
      invariant_run
        (fun conn => Dispatching conn ∧ Ledger conn) _
        ⟨dispatching_create, ledger_create⟩ once
    rintro conn step ⟨dispatching, ledger⟩ ⟨unfinished, keeps⟩
    exact
      ⟨dispatching.step protoData step unfinished,
        ledger.step protoData dispatching step unfinished keeps⟩
  rcases kept.2 with solvent | ended
  · rcases solvent.balanced with ⟨nodes, queued, accounts⟩
    have standing := accounts.standing
    have numbered := accounts.exchanges.symm.nodup List.nodup_range
    refine
      ⟨(List.nodup_append.mp numbered).1,
        (List.nodup_append.mp (accounts.nodup queued)).1, ?_, ?_,
        accounts.faults, ?_⟩
    · rw [standing.session]
      exact Nat.zero_le 1
    · rw [standing.attached.1]
      exact Nat.zero_le _
    · intro freed
      exact absurd (standing.session.symm.trans freed) Nat.zero_ne_one
  · refine
      ⟨ended.exchanges.symm.nodup List.nodup_range, ended.responses, ?_,
        ?_, ended.faults, fun _ => ⟨?_, ended.added⟩⟩
    · exact Nat.le_of_eq ended.session
    · rw [ended.session]
      exact ended.connection
    · intro slot early
      exact ended.exchanges.mem_iff.mpr (List.mem_range.mpr early)

/-- A request that asks for an interim response, and gets its own; the peer
disconnects in the next one. -/
def interimAnswers : List Step :=
  [.receive
      (bytes
        "POST / HTTP/1.1\r\nExpect: 100-continue\r\nContent-Length: 2\r\n\r\n")
      [],
    .read [.accepted 999] .okay,
    .receive (bytes "ab") [],
    .read [] .okay,
    .writable [.accepted 999] .okay,
    .receive (bytes "GET /") [],
    .read [] .okay,
    .disconnect]

theorem freed_once_interimAnswers :
    let conn := run (connStep answeringApplication) Conn.create interimAnswers
    conn.freedExchanges.Nodup ∧
      conn.freedResponses.Nodup ∧
        conn.sessionFrees ≤ 1 ∧
          conn.connFrees ≤ conn.sessionFrees ∧
            conn.faults = conn.completed.map .response ∧
              (conn.sessionFrees = 1 →
                (∀ slot, slot < conn.nextExchange →
                  slot ∈ conn.freedExchanges) ∧
                  ∀ id ∈ conn.added, id ∈ conn.freedResponses) :=
  freed_once answeringApplication interimAnswers (by decide)

end Yimmo.Http.ObjectRuns
