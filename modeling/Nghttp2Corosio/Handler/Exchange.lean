import Nghttp2Corosio.Handler.EchoInvariant
import Nghttp2Corosio.Flow.Channel

/-!
A request and its response between the two ends of a connection.

One end is the stream of a client, used by anybody in any way its interface
allows; the other end is `echo` with the stream it serves. Between them is what
nghttp2 does with the HEADERS and DATA frames of one stream. That is taken from
its documentation, as the source relies on it: the fields and the bytes of a
direction arrive unchanged and in order, END_STREAM arrives last, a provider is
called only while it is attached, not deferred, and both windows are open, and
for no more than they allow; DATA that arrives is credited to the connection by
`on_data_chunk_recv_callback` and to the stream by `consume()`. Frames are not
kept apart: DATA arrives in pieces that need not be those in which it was
sent. A stream that is closed at one end gets no callbacks there any more.

A step of the exchange is a step of one of the ends, and the channels follow
what the ends do by their labels. So a run of the exchange is, seen from either
end, a run of that end.
-/

namespace Nghttp2Corosio

open Async Buffers Flow Runs

/-! ### One direction -/

/-- What is on its way from one end to the other: fields of the header block,
then the body. -/
structure Leg where
  head : List (Bytes × Bytes) := []
  body : Channel UInt8

/-- nghttp2 makes a callback at the receiving end; `none` if nothing that arrives
leads to it. -/
def Leg.receive (leg : Leg) : Action → Option Leg
  | .onHeader name value =>
      if leg.head.head? = some (name, value) then some { leg with head := leg.head.tail }
      else none
  | .onData data =>
      if leg.head.isEmpty then (leg.body.deliver data).map fun ch => { leg with body := ch }
      else none
  | .onReadEof =>
      if leg.head.isEmpty then leg.body.finish.map fun ch => { leg with body := ch } else none
  | _ => some leg

/-- nghttp2 may make a callback at the sending end. -/
def Leg.admits (leg : Leg) (p : Provider) : Action → Bool
  | .producerCallback length => p.attached && !p.deferred && length ≤ leg.body.room
  | _ => true

def Leg.sent (leg : Leg) : Label → Leg
  | .pulled bytes eof => { leg with body := leg.body.send bytes eof }
  | _ => leg

def Leg.credited (leg : Leg) : Label → Leg
  | .call (.consumeStream n) => { leg with body := leg.body.consume n }
  | _ => leg

def Leg.answered (leg : Leg) : EchoLabel → Leg
  | .stream l => leg.sent l
  | .submitted fields accepted =>
      if accepted then { leg with head := leg.head ++ fields } else leg

def Leg.credit (leg : Leg) (limits : Limits) (a : CreditAction) : Option Leg :=
  (leg.body.credit limits a).map fun ch => { leg with body := ch }

/-! ### Both directions, and both ends -/

structure Exchange where
  client : Cell
  server : Echo
  request : Leg
  response : Leg

inductive ExchangeLabel
  | client (l : Label)
  | server (l : EchoLabel)
  deriving DecidableEq, Repr

/-- What the user of the client's stream does, or nghttp2 does to it; what `echo`
does, or nghttp2 does to its stream; and WINDOW_UPDATE frames for the body of the
request and of the response. -/
inductive ExchangeAction
  | client (act : Action)
  | server (a : EchoAction)
  | request (a : CreditAction)
  | response (a : CreditAction)
  deriving DecidableEq, Repr

def EchoAction.act : EchoAction → Option Action
  | .callback act => some act
  | _ => none

/-- nghttp2 does not call a stream that is closed. -/
def Stream.hears (s : Stream) (act : Action) : Bool := !(act.isCallback && s.closed)

def Exchange.onClient (x : Exchange) (act : Action) : Option (Exchange × List ExchangeLabel) :=
  if x.client.stream.hears act && x.request.admits x.client.provider act then
    (x.response.receive act).bind fun response =>
      (x.client.step act).map fun (client, os) =>
        ({ x with
            client := client
            request := os.foldl Leg.sent x.request
            response := os.foldl Leg.credited response }, os.map .client)
  else none

/-- `echo` is started when the header block of the request is complete. -/
def Exchange.hears (x : Exchange) : EchoAction → Bool
  | .callback act =>
      x.server.cell.stream.hears act && x.response.admits x.server.cell.provider act
  | .go _ => x.request.head.isEmpty
  | _ => true

def Exchange.onServer (x : Exchange) (a : EchoAction) : Option (Exchange × List ExchangeLabel) :=
  if x.hears a then
    ((a.act.map x.request.receive).getD (some x.request)).bind fun request =>
      (x.server.step a).map fun (server, os) =>
        ({ x with
            server := server
            request := (onStream os).foldl Leg.credited request
            response := os.foldl Leg.answered x.response }, os.map .server)
  else none

section

variable (up down : Limits)

def Exchange.step (x : Exchange) : ExchangeAction → Option (Exchange × List ExchangeLabel)
  | .client act => x.onClient act
  | .server a => x.onServer a
  | .request a => (x.request.credit up a).map fun leg => ({ x with request := leg }, [])
  | .response a => (x.response.credit down a).map fun leg => ({ x with response := leg }, [])

/-- `submit_request` has succeeded, and its HEADERS frame is on its way. -/
def Exchange.fresh (id : ℤ) (path : Bytes) (contentLength : Option ℕ)
    (headers : List (Bytes × Bytes)) : Exchange where
  client := Cell.fresh id true
  server := { cell := Cell.fresh id false }
  request := ⟨submitRequestFields path contentLength headers, Channel.fresh up⟩
  response := ⟨[], Channel.fresh down⟩

def exchangeMachine : Machine Exchange ExchangeAction ExchangeLabel where
  init x := ∃ id path contentLength headers,
    x = Exchange.fresh up down id path contentLength headers
  step := Exchange.step up down

theorem exchangeMachine_init (id : ℤ) (path : Bytes) (contentLength : Option ℕ)
    (headers : List (Bytes × Bytes)) :
    (exchangeMachine up down).init (Exchange.fresh up down id path contentLength headers) :=
  ⟨id, path, contentLength, headers, rfl⟩

end

/-! ### Reading a trace -/

def ExchangeLabel.ofClient : ExchangeLabel → Option Label
  | .client l => some l
  | _ => none

def ExchangeLabel.ofServer : ExchangeLabel → Option EchoLabel
  | .server l => some l
  | _ => none

def atClient (tr : List ExchangeLabel) : List Label := tr.filterMap ExchangeLabel.ofClient

def atServer (tr : List ExchangeLabel) : List EchoLabel := tr.filterMap ExchangeLabel.ofServer

section Trace

variable (tr os : List ExchangeLabel)

@[simp] theorem atClient_append : atClient (tr ++ os) = atClient tr ++ atClient os := by
  simp [atClient]

@[simp] theorem atServer_append : atServer (tr ++ os) = atServer tr ++ atServer os := by
  simp [atServer]

@[simp] theorem atClient_map_client (os : List Label) : atClient (os.map .client) = os := by
  simp [atClient, List.filterMap_map, ExchangeLabel.ofClient, Function.comp_def]

@[simp] theorem atServer_map_client (os : List Label) : atServer (os.map .client) = [] := by
  simp [atServer, List.filterMap_map, ExchangeLabel.ofServer, Function.comp_def]

@[simp] theorem atServer_map_server (os : List EchoLabel) : atServer (os.map .server) = os := by
  simp [atServer, List.filterMap_map, ExchangeLabel.ofServer, Function.comp_def]

@[simp] theorem atClient_map_server (os : List EchoLabel) : atClient (os.map .server) = [] := by
  simp [atClient, List.filterMap_map, ExchangeLabel.ofClient, Function.comp_def]

end Trace

/-! ### What a step can do -/

/-- The steps of an exchange, one constructor for each party that takes it. -/
inductive Exchange.Moves (up down : Limits) (x : Exchange) :
    ExchangeAction → Exchange → List ExchangeLabel → Prop
  | client (act : Action) (client : Cell) (response : Leg) (os : List Label)
      (hhears : x.client.stream.hears act = true)
      (hadmits : x.request.admits x.client.provider act = true)
      (hreceive : x.response.receive act = some response)
      (hstep : x.client.step act = some (client, os)) :
      Moves up down x (.client act)
        { x with
          client := client
          request := os.foldl Leg.sent x.request
          response := os.foldl Leg.credited response } (os.map .client)
  | server (a : EchoAction) (server : Echo) (request : Leg) (os : List EchoLabel)
      (hhears : x.hears a = true)
      (hreceive : (a.act.map x.request.receive).getD (some x.request) = some request)
      (hstep : x.server.step a = some (server, os)) :
      Moves up down x (.server a)
        { x with
          server := server
          request := (onStream os).foldl Leg.credited request
          response := os.foldl Leg.answered x.response } (os.map .server)
  | request (a : CreditAction) (leg : Leg) (hcredit : x.request.credit up a = some leg) :
      Moves up down x (.request a) { x with request := leg } []
  | response (a : CreditAction) (leg : Leg) (hcredit : x.response.credit down a = some leg) :
      Moves up down x (.response a) { x with response := leg } []

theorem Exchange.step_moves {up down : Limits} {x x' : Exchange} {a : ExchangeAction}
    {os : List ExchangeLabel} (h : x.step up down a = some (x', os)) :
    Exchange.Moves up down x a x' os := by
  cases a with
  | client act =>
      simp only [Exchange.step, Exchange.onClient] at h
      split at h
      · rename_i hguard
        rw [Bool.and_eq_true] at hguard
        obtain ⟨response, hreceive, h⟩ := Option.bind_eq_some_iff.mp h
        obtain ⟨⟨client, ls⟩, hstep, heq⟩ := Option.map_eq_some_iff.mp h
        cases heq
        exact .client act client response ls hguard.1 hguard.2 hreceive hstep
      · cases h
  | server a =>
      simp only [Exchange.step, Exchange.onServer] at h
      split at h
      · rename_i hhears
        obtain ⟨request, hreceive, h⟩ := Option.bind_eq_some_iff.mp h
        obtain ⟨⟨server, ls⟩, hstep, heq⟩ := Option.map_eq_some_iff.mp h
        cases heq
        exact .server a server request ls hhears hreceive hstep
      · cases h
  | request a =>
      obtain ⟨leg, hleg, heq⟩ := Option.map_eq_some_iff.mp h
      cases heq
      exact .request a leg hleg
  | response a =>
      obtain ⟨leg, hleg, heq⟩ := Option.map_eq_some_iff.mp h
      cases heq
      exact .response a leg hleg

end Nghttp2Corosio
