import Mcp.Streamable.Handler

namespace Mcp.Streamable
open Mcp.Lib

inductive SSEEvent where
  | endpoint (sessionID : String)
  | message (out : StreamableMsg)

inductive ScanError where
  | tooLong
  | broken

inductive WriteError where
  | closedPipe
  | noEndpoint
  | failed
  | status (code : Nat)

inductive WritePC where
  | posting (sessionID : String)
  | waiting (place : Place)
  | returned (err : Option WriteError)

structure WriteCall where
  msg : JSONRPCMessage
  pc : WritePC
  handledBy : Option Place := none

structure EventSource where
  sessionID : String
  place : Place
  scanned : Nat := 0

inductive EventsPC where
  | scanning
  | sending (msg : JSONRPCMessage) (id : String)
  | ended

structure StreamableClientConnection where
  eventSource : EventSource
  postURL : Option String := none
  closed : Bool := false
  ctxDone : Bool := false
  lastEventID : String := ""
  incomingCh : List JSONRPCMessage := []
  errorCh : List ScanError := []
  pc : EventsPC := .scanning
  writes : List WriteCall := []
  delivered : List JSONRPCMessage := []

inductive ClientAction where
  | scan
  | push
  | drop
  | eof
  | scanError (err : ScanError)
  | stop
  | write (msg : JSONRPCMessage)
  | post (k : Nat) (randText : String) (hasServer : Bool)
  | respond (k : Nat)
  -- The POST fails, or the server rejects it before it looks at the message.
  | abort (k : Nat)
  | read
  | readError
  | close
  | cancel

def Post.status (p : Post) : Option (Option Nat) :=
  match p.pc with
  | .accepted => some (some 202)
  | .refused _ => some (some 408)
  | .finished | .abandoned => some (some 200)
  | .panicked => if p.written.isEmpty then some none else some (some 200)
  | _ => if p.written.isEmpty then none else some (some 200)

def EventSource.body (h : StreamableHTTPHandler) (source : EventSource) : List SSEEvent :=
  match h.goroutine source.place with
  | some (.reader r) => .endpoint source.sessionID :: r.written.map .message
  | _ => []

namespace StreamableClientConnection

variable (c : StreamableClientConnection)

def incomingCap : Nat := 100

def errorCap : Nat := 10

def handleEndpointEvent (sessionID : String) : StreamableClientConnection :=
  { c with postURL := some sessionID }

def seen (id : String) : StreamableClientConnection :=
  { c with lastEventID := if id = "" then c.lastEventID else id, pc := .scanning }

def handleMessageEvent (out : StreamableMsg) : StreamableClientConnection :=
  match unmarshal (marshal out.message) with
  | some msg => { c with pc := .sending msg out.eventID }
  | none => c.seen out.eventID

def processEvents (h : StreamableHTTPHandler) : Option StreamableClientConnection :=
  match c.pc with
  | .scanning =>
    (c.eventSource.body h)[c.eventSource.scanned]?.map fun evt =>
      let c := { c with eventSource := { c.eventSource with scanned := c.eventSource.scanned + 1 } }
      match evt with
      | .endpoint sessionID => c.handleEndpointEvent sessionID
      | .message out => c.handleMessageEvent out
  | _ => none

def push : Option StreamableClientConnection :=
  match c.pc with
  | .sending msg id =>
    if c.incomingCh.length < incomingCap then
      some ({ c with incomingCh := c.incomingCh ++ [msg], delivered := c.delivered ++ [msg] }.seen id)
    else none
  | _ => none

def drop : Option StreamableClientConnection :=
  match c.pc with
  | .sending _ id => if c.closed ∨ c.ctxDone then some (c.seen id) else none
  | _ => none

def eof (h : StreamableHTTPHandler) : Option StreamableClientConnection :=
  match c.pc, h.goroutine c.eventSource.place with
  | .scanning, some (.reader r) =>
    if r.pc = .ended ∧ (c.eventSource.body h).length ≤ c.eventSource.scanned then
      some { c with pc := .ended }
    else none
  | _, _ => none

def scanError (err : ScanError) : Option StreamableClientConnection :=
  match c.pc with
  | .scanning =>
    if c.errorCh.length < errorCap then some { c with errorCh := c.errorCh ++ [err], pc := .ended }
    else none
  | _ => none

def stop : Option StreamableClientConnection :=
  match c.pc with
  | .scanning => if c.closed ∨ c.ctxDone then some { c with pc := .ended } else none
  | _ => none

def write (msg : JSONRPCMessage) : WriteCall where
  msg := msg
  pc :=
    if c.closed then .returned (some .closedPipe)
    else match c.postURL with
      | none => .returned (some .noEndpoint)
      | some sessionID => .posting sessionID

def setWrite (k : Nat) (call : WriteCall) : StreamableClientConnection :=
  { c with writes := c.writes.set k call }

def post (h : StreamableHTTPHandler) (k : Nat) (randText : String) (hasServer : Bool) :
    Option (StreamableHTTPHandler × StreamableClientConnection) :=
  c.writes[k]?.bind fun call => match call.pc with
    | .posting sessionID =>
      match unmarshal (marshal call.msg) with
      | none => some (h, c.setWrite k { call with pc := .returned (some (.status 400)) })
      | some msg =>
        match h.findSession ⟨sessionID, randText, hasServer, .post msg⟩ with
        | none => some (h, c.setWrite k { call with pc := .returned (some (.status 404)) })
        | some (n, h) =>
          (h.serve n (.post msg)).map fun served =>
            (served.2, c.setWrite k { call with pc := .waiting served.1, handledBy := some served.1 })
    | _ => none

-- `Do` returns as soon as there are headers, and the body is closed unread.
def respond (h : StreamableHTTPHandler) (k : Nat) : Option StreamableClientConnection :=
  c.writes[k]?.bind fun call => match call.pc with
    | .waiting place => match h.goroutine place with
        | some (.post p) => p.status.map fun status => c.setWrite k { call with
            pc := .returned (match status with
              | none => some .failed
              | some code => if code < 200 ∨ 300 ≤ code then some (.status code) else none) }
        | _ => none
    | _ => none

def abort (k : Nat) : Option StreamableClientConnection :=
  c.writes[k]?.bind fun call => match call.pc with
    | .returned _ => none
    | _ => some (c.setWrite k { call with pc := .returned (some .failed) })

def read : Option StreamableClientConnection :=
  match c.incomingCh with
  | [] => none
  | _ :: rest => some { c with incomingCh := rest }

def readError : Option StreamableClientConnection :=
  match c.errorCh with
  | [] => none
  | _ :: rest => some { c with errorCh := rest }

def act (h : StreamableHTTPHandler) :
    ClientAction → Option (StreamableHTTPHandler × StreamableClientConnection)
  | .scan => (c.processEvents h).map fun c => (h, c)
  | .push => c.push.map fun c => (h, c)
  | .drop => c.drop.map fun c => (h, c)
  | .eof => (c.eof h).map fun c => (h, c)
  | .scanError err => (c.scanError err).map fun c => (h, c)
  | .stop => c.stop.map fun c => (h, c)
  | .write msg => some (h, { c with writes := c.writes ++ [c.write msg] })
  | .post k randText hasServer => c.post h k randText hasServer
  | .respond k => (c.respond h k).map fun c => (h, c)
  | .abort k => (c.abort k).map fun c => (h, c)
  | .read => c.read.map fun c => (h, c)
  | .readError => c.readError.map fun c => (h, c)
  | .close => some (h, { c with closed := true })
  | .cancel => some (h, { c with ctxDone := true })

end StreamableClientConnection

structure World where
  handler : StreamableHTTPHandler
  client : Option StreamableClientConnection := none

inductive WorldEvent where
  | server (e : HandlerEvent)
  | connect (randText : String) (hasServer : Bool)
  | client (a : ClientAction)

def newStreamableClientConnection (h : StreamableHTTPHandler) (randText : String) (hasServer : Bool) :
    Option (StreamableHTTPHandler × StreamableClientConnection) :=
  (h.findSession ⟨"", randText, hasServer, .get ""⟩).bind fun found =>
    (found.2.serve found.1 (.get "")).map fun served =>
      (served.2, { eventSource := { sessionID := randText, place := served.1 } })

def World.step (w : World) : WorldEvent → Option World
  | .server e => (w.handler.step e).map fun h => { w with handler := h }
  | .connect randText hasServer =>
    match w.client with
    | some _ => none
    | none => (newStreamableClientConnection w.handler randText hasServer).map fun made =>
      ⟨made.1, some made.2⟩
  | .client a =>
    w.client.bind fun c => (c.act w.handler a).map fun moved => ⟨moved.1, some moved.2⟩

def world (maxSessions : Nat) : Machine World WorldEvent where
  start := { handler := { maxSessions := maxSessions } }
  step := World.step

end Mcp.Streamable
