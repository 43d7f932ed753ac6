import Mcp.Lib.Bytes
import Mcp.Middleware.Chain

namespace Mcp.Middleware
open Mcp.Lib Sorting

structure ResponseError where
  code : Int
  message : String
  data : Option Bytes

def ResponseError.error (e : ResponseError) : String := s!"MCP error {e.code}: {e.message}"

inductive ErrorKind
  | response (e : ResponseError)
  | wire (code : Int) (message : String)
  | other (text : String)

def ErrorKind.text : ErrorKind → String
  | .response e => e.error
  | .wire _ message => message
  | .other text => text

structure GoError where
  outer : ErrorKind
  wrapped : List ErrorKind := []

namespace GoError

def error (e : GoError) : String := e.outer.text

def asResponse (e : GoError) : Option ResponseError :=
  (e.outer :: e.wrapped).findSome? fun
    | .response re => some re
    | _ => none

def wrap (text : String) (e : GoError) : GoError :=
  { outer := .other (text ++ e.error), wrapped := e.outer :: e.wrapped }

end GoError

inductive ID
  | none
  | string (s : String)
  | int64 (n : Int)

inductive RawID
  | nil
  | string (s : String)
  | int (n : Int)
  | int64 (n : Int)

def ID.raw : ID → RawID
  | .none => .nil
  | .string s => .string s
  | .int64 n => .int64 n

structure Request where
  method : String
  id : ID
  params : Option Bytes

structure UnifiedRequest (κ : Type) where
  method : String
  id : RawID
  params : Option Bytes
  ctx : κ

def mcpRequestToJSONRPC {κ : Type} (req : UnifiedRequest κ) : Request where
  method := req.method
  id :=
    match req.id with
    | .string s => .string s
    | .int n => .int64 n
    | .int64 n => .int64 n
    | .nil => .none
  params := req.params

inductive Panic
  | error (e : GoError)
  | value (text : String)

def recoverPanic : Panic → GoError
  | .error e => e.wrap "panic: "
  | .value text => { outer := .other ("panic: " ++ text) }

inductive Answer (ρ : Type)
  | result (r : Option ρ)
  | error (e : GoError)
  | panic (p : Panic)

def notFoundError (type identifier : String) : GoError :=
  { outer := .other s!"mcp: {type} '{identifier}' not found" }

structure Server (κ ρ : Type) where
  validateRequest : String → Bytes → Option GoError
  handlers : String → Option (κ → Request → Option (Answer ρ))

inductive MCPResponse (ρ : Type)
  | success (result : Option ρ)
  | error (err : ResponseError)

abbrev MCPHandler (κ ρ : Type) := κ → UnifiedRequest κ → Option (Except GoError (Option (MCPResponse ρ)))

namespace Server

variable {κ ρ : Type} (s : Server κ ρ)

def awaitAnswer (method : String) : Answer ρ → Except GoError (Option ρ)
  | .result r => .ok r
  | .error e => .error e
  | .panic p => .error ((recoverPanic p).wrap s!"handler {method}: ")

def handleRequest (cancelled : Option GoError) (ctx : κ) (req : Request) : Option (Except GoError (Option ρ)) :=
  match req.params.bind (s.validateRequest req.method) with
  | some invalid => some (.error invalid)
  | none =>
    match s.handlers req.method with
    | none => some (.error (notFoundError "method" req.method))
    | some handler =>
      -- the error of the context if the `select` takes that case
      match cancelled with
      | some err => some (.error err)
      | none => (handler ctx req).map (awaitAnswer req.method)

def mcpBaseHandler (cancelled : Option GoError) : MCPHandler κ ρ := fun ctx req =>
  (s.handleRequest cancelled ctx (mcpRequestToJSONRPC req)).map fun
    | .ok result => .ok (some (.success result))
    | .error err =>
      match err.asResponse with
      | some re => .ok (some (.error re))
      | none => .ok (some (.error { code := -32603, message := err.error, data := none }))

def fromResponse : Except GoError (Option (MCPResponse ρ)) → Except GoError (Option ρ)
  | .error err => .error err
  | .ok none => .ok none
  | .ok (some (.error err)) => .error { outer := .response err }
  | .ok (some (.success result)) => .ok result

variable {μ : Type} (priority : μ → Int) (wrap : μ → MCPHandler κ ρ → MCPHandler κ ρ)

def middlewareHandler (middleware : List μ) (cancelled : Option GoError) (ctx : κ) (req : Request) :
    Option (Except GoError (Option ρ)) :=
  if middleware.isEmpty then s.handleRequest cancelled ctx req
  else
    let wrapped := MiddlewareChain.apply priority wrap ⟨middleware⟩ (s.mcpBaseHandler cancelled)
    (wrapped ctx { method := req.method, id := req.id.raw, params := req.params, ctx := ctx }).map fromResponse

end Server

structure WireError where
  code : Int
  message : String
deriving DecidableEq

def reply {ρ : Type} (toWireError : GoError → WireError) (outcome : Except GoError (Option ρ)) :
    Except WireError (Option ρ) := outcome.mapError toWireError

def GoError.relayed (e : GoError) : GoError :=
  match e.asResponse with
  | some re => { outer := .response re }
  | none => { outer := .response { code := -32603, message := e.error, data := none } }

theorem mcpRequestToJSONRPC_raw {κ : Type} (req : Request) (ctx : κ) :
    mcpRequestToJSONRPC { method := req.method, id := req.id.raw, params := req.params, ctx := ctx } = req := by
  obtain ⟨method, id, params⟩ := req
  cases id <;> rfl

theorem MiddlewareChain.apply_of_forwards {μ η : Type} {priority : μ → Int} {wrap : μ → η → η}
    {middleware : List μ} (forwards : ∀ m ∈ middleware, ∀ next, wrap m next = next) (handler : η) :
    MiddlewareChain.apply priority wrap ⟨middleware⟩ handler = handler := by
  rw [MiddlewareChain.apply_eq_foldr]
  have sorted : ∀ m ∈ bubbleSort priority middleware, ∀ next, wrap m next = next :=
    fun m member => forwards m ((bubbleSort_spec priority middleware).1.mem_iff.mp member)
  generalize bubbleSort priority middleware = items at sorted
  induction items with
  | nil => rfl
  | cons m rest ih =>
    rw [List.foldr_cons, ih fun m' member => sorted m' (.tail m member), sorted m List.mem_cons_self]

namespace Server

variable {κ ρ μ : Type} (s : Server κ ρ) (cancelled : Option GoError) (ctx : κ)

theorem fromResponse_mcpBaseHandler (req : UnifiedRequest κ) : (s.mcpBaseHandler cancelled ctx req).map fromResponse =
      (s.handleRequest cancelled ctx (mcpRequestToJSONRPC req)).map (Except.mapError GoError.relayed) := by
  rw [mcpBaseHandler, Option.map_map]
  congr 1
  funext outcome
  cases outcome with
  | ok result => rfl
  | error err =>
    show fromResponse (match err.asResponse with | some re => _ | none => _) = Except.error err.relayed
    unfold GoError.relayed
    cases err.asResponse <;> rfl

theorem middlewareHandler_eq {priority : μ → Int} {wrap : μ → MCPHandler κ ρ → MCPHandler κ ρ}
    {middleware : List μ} (nonempty : middleware ≠ []) (forwards : ∀ m ∈ middleware, ∀ next, wrap m next = next)
    (req : Request) : s.middlewareHandler priority wrap middleware cancelled ctx req =
      (s.handleRequest cancelled ctx req).map (Except.mapError GoError.relayed) := by
  have serves : middleware.isEmpty = false := by simpa using nonempty
  rw [middlewareHandler, serves, if_neg Bool.false_ne_true, MiddlewareChain.apply_of_forwards forwards,
    fromResponse_mcpBaseHandler, mcpRequestToJSONRPC_raw]

variable {s cancelled ctx} in
theorem map_relayed_of_response {req : Request}
    (protocol : ∀ e, s.handleRequest cancelled ctx req = some (.error e) → ∃ re, e = { outer := .response re }) :
    (s.handleRequest cancelled ctx req).map (Except.mapError GoError.relayed) = s.handleRequest cancelled ctx req := by
  cases outcome : s.handleRequest cancelled ctx req with
  | none => rfl
  | some outcome' =>
    cases outcome' with
    | ok result => rfl
    | error e =>
      obtain ⟨re, rfl⟩ := protocol e outcome
      rfl

theorem middlewareHandler_reply (toWireError : GoError → WireError) (priority : μ → Int)
    (wrap : μ → MCPHandler κ ρ → MCPHandler κ ρ) (middleware : List μ) (nonempty : middleware ≠ [])
    (forwards : ∀ m ∈ middleware, ∀ next, wrap m next = next) (req : Request) :
    (s.middlewareHandler priority wrap middleware cancelled ctx req).map (reply toWireError) =
        (s.handleRequest cancelled ctx req).map (reply fun e => toWireError e.relayed) ∧
      ((∀ e, s.handleRequest cancelled ctx req = some (.error e) → ∃ re, e = { outer := .response re }) →
        (s.middlewareHandler priority wrap middleware cancelled ctx req).map (reply toWireError) =
          (s.handleRequest cancelled ctx req).map (reply toWireError)) := by
  rw [s.middlewareHandler_eq cancelled ctx nonempty forwards req]
  refine ⟨?_, fun protocol => by rw [map_relayed_of_response protocol]⟩
  rw [Option.map_map]
  congr 1
  funext outcome
  cases outcome <;> rfl

end Server

def wireError (e : GoError) : WireError where
  code := ((e.outer :: e.wrapped).findSome? fun | .wire code _ => some code | _ => none).getD 0
  message := e.error

def failing : Server Unit Unit where
  validateRequest _ _ := none
  handlers method :=
    if method = "m" then some fun _ _ => some (.error { outer := .response ⟨-32002, "gone", none⟩ }) else none

theorem middlewareHandler_reply_failing :
    ((failing.middlewareHandler (fun _ : Unit => 0) (fun _ next => next) [()] none () ⟨"m", .int64 1, none⟩).map
        (reply wireError)) =
      some (.error ⟨0, "MCP error -32002: gone"⟩) := by
  have same := (failing.middlewareHandler_reply none () wireError (fun _ : Unit => 0) (fun _ next => next) [()]
    (by simp) (fun _ _ _ => rfl) ⟨"m", .int64 1, none⟩).1
  rw [same]
  decide +kernel

theorem middlewareHandler_reply_unknown :
    let req : Request := ⟨"x", .int64 1, none⟩
    ((failing.handleRequest none () req).map (reply wireError)) = some (.error ⟨0, "mcp: method 'x' not found"⟩) ∧
      ((failing.middlewareHandler (fun _ : Unit => 0) (fun _ next => next) [()] none () req).map
          (reply wireError)) =
        some (.error ⟨0, "MCP error -32603: mcp: method 'x' not found"⟩) := by
  decide +kernel

end Mcp.Middleware
