import Mcp.Lib.JsonSyntax
import Mcp.Server.Capabilities
import Mcp.Server.Pagination

namespace Mcp.Dispatch
open Mcp.Lib Bytes
open Serving (ValidationConfig paginate)

inductive Error where
  | parameter (method parameter message : String)
  | notFound (type : String) (identifier : Bytes)
  | alreadyExists (type : String) (identifier : Bytes)
deriving DecidableEq

structure Definition (ι η : Type) where
  item : ι
  handler : η

structure Registry (ι η : Type) (key : ι → Bytes) where
  entries : List (Definition ι η) := []
  unique : (entries.map fun d => key d.item).Nodup := by exact List.nodup_nil

section Registry

variable {ι η : Type} {key : ι → Bytes}

def Registry.find (r : Registry ι η key) (name : Bytes) : Option (Definition ι η) :=
  r.entries.find? fun d => key d.item = name

theorem Registry.nodup_concat (r : Registry ι η key) {d : Definition ι η} (absent : r.find (key d.item) = none) :
    ((r.entries ++ [d]).map fun d => key d.item).Nodup := by
  rw [List.map_append]
  refine r.unique.append (List.nodup_singleton _) ?_
  intro name member same
  obtain ⟨e, place, rfl⟩ := List.mem_map.mp member
  have other := List.find?_eq_none.mp absent e place
  simp [List.mem_singleton.mp same] at other

def Registry.register (r : Registry ι η key) (type : String) (d : Definition ι η) : Except Error (Registry ι η key) :=
  match absent : r.find (key d.item) with
  | some _ => .error (.alreadyExists type (key d.item))
  | none => .ok ⟨r.entries ++ [d], r.nodup_concat absent⟩

end Registry

structure Tool where
  name : Bytes
  description : Bytes := []
  inputSchema : Bytes := []
  outputSchema : Bytes := []

structure Prompt where
  name : Bytes
  description : Bytes := []

structure Resource where
  uri : Bytes
  name : Bytes := []
  description : Bytes := []
  mimeType : Bytes := []

def Resource.named (resource : Resource) : Resource :=
  if resource.name = [] then { resource with name := resource.uri } else resource

structure ResourceTemplate where
  template : Bytes
  description : Bytes := []

structure Config extends ValidationConfig where
  validateFormat : Bool := true

structure Server (η : Type) where
  validator : Config := {}
  tools : Registry Tool η Tool.name := {}
  prompts : Registry Prompt η Prompt.name := {}
  resources : Registry Resource η Resource.uri := {}
  resourceTmpls : Registry ResourceTemplate η ResourceTemplate.template := {}

namespace Server

variable {η : Type} (s : Server η)

def registerTool (tool : Tool) (handler : η) : Except Error (Server η) :=
  (s.tools.register "tool" ⟨tool, handler⟩).map fun tools => { s with tools := tools }

def registerPrompt (prompt : Prompt) (handler : η) : Except Error (Server η) :=
  (s.prompts.register "prompt" ⟨prompt, handler⟩).map fun prompts => { s with prompts := prompts }

def registerResource (resource : Resource) (handler : η) : Except Error (Server η) :=
  (s.resources.register "resource" ⟨resource.named, handler⟩).map fun resources => { s with resources := resources }

def registerResourceTemplate (template : ResourceTemplate) (handler : η) : Except Error (Server η) :=
  (s.resourceTmpls.register "resource template" ⟨template, handler⟩).map fun templates =>
    { s with resourceTmpls := templates }

end Server

inductive Registration (η : Type) where
  | tool (tool : Tool) (handler : η)
  | prompt (prompt : Prompt) (handler : η)
  | resource (resource : Resource) (handler : η)
  | template (template : ResourceTemplate) (handler : η)

def Server.register {η : Type} (s : Server η) : Registration η → Except Error (Server η)
  | .tool tool handler => s.registerTool tool handler
  | .prompt prompt handler => s.registerPrompt prompt handler
  | .resource resource handler => s.registerResource resource handler
  | .template template handler => s.registerResourceTemplate template handler

def registering (η : Type) : Machine (Server η) (Registration η) where
  start := {}
  step s r := (s.register r).toOption

def validateRequestSize (data : Bytes) (maxSize : Int) : Except Error Unit :=
  let size := data.length
  if maxSize < size then .error (.parameter "" "" s!"request size {size} exceeds maximum {maxSize} bytes") else .ok ()

def validateRequiredFields (method : String) (fields : List (String × Bytes)) : Except Error Unit :=
  match fields.find? fun field => field.2 = [] with
  | some field => .error (.parameter method field.1 "required field is empty")
  | none => .ok ()

def isAlphanumeric (r : UInt8) : Bool := 97 ≤ r && r ≤ 122 || 65 ≤ r && r ≤ 90 || 48 ≤ r && r ≤ 57

-- The source ranges over runes. A byte from 0x80 on is part of a rune that is not in the sets either.
def consistsOf (symbols : Bytes) (s : Bytes) : Bool := !s.isEmpty && s.all fun r => isAlphanumeric r || r ∈ symbols

def isValidIdentifier (s : Bytes) : Bool := consistsOf (ofString "_-.") s

def isValidURI (s : Bytes) : Bool := consistsOf (ofString "/:.-_?&=#") s

namespace Config

variable (config : Config)

def validateRequest (method : String) (data : Bytes) : Except Error Unit := do
  validateRequestSize data config.maxRequestSize
  if JsonSyntax.Valid data then .ok () else .error (.parameter method "" "invalid JSON format")

def validateField (method field message : String) (valid : Bytes → Bool) (value : Bytes) : Except Error Unit :=
  if !config.validateRequired then .ok ()
  else do
    validateRequiredFields method [(field, value)]
    if config.validateFormat && !valid value then .error (.parameter method field message) else .ok ()

end Config

structure CallToolRequest where
  name : Bytes
  arguments : Bytes := []
  metadata : List (String × Any) := []

structure GetPromptRequest where
  name : Bytes
  arguments : List (String × Any) := []

structure ReadResourceRequest where
  uri : Bytes

namespace Config

variable (config : Config)

def validateCallToolRequest (params : CallToolRequest) : Except Error Unit :=
  config.validateField "tools/call" "name" "invalid tool name format" isValidIdentifier params.name

def validateGetPromptRequest (params : GetPromptRequest) : Except Error Unit :=
  config.validateField "prompts/get" "name" "invalid prompt name format" isValidIdentifier params.name

def validateReadResourceRequest (params : ReadResourceRequest) : Except Error Unit :=
  config.validateField "resources/read" "uri" "invalid URI format" isValidURI params.uri

end Config

structure Codec where
  listRequest : Bytes → Option Bytes
  callToolRequest : Bytes → Option CallToolRequest
  getPromptRequest : Bytes → Option GetPromptRequest
  readResourceRequest : Bytes → Option ReadResourceRequest

def unmarshal {ρ : Type} (method : String) (decode : Bytes → Option ρ) (params : Bytes) : Except Error ρ :=
  match decode params with
  | some request => .ok request
  | none => .error (.parameter method "" "JSON unmarshaling failed")

def unmarshalOptionalParams (method : String) (decode : Bytes → Option Bytes) (params : Bytes) : Except Error Bytes :=
  if params = [] || trimSpace params = ofString "null" then .ok [] else unmarshal method decode params

namespace Server

variable {η : Type} (s : Server η) (codec : Codec)

-- Absent parameters are an empty slice to the handler of the method.
def handleRequest {ρ : Type} (method : String) (params : Option Bytes) (handler : Bytes → Except Error ρ) :
    Except Error ρ :=
  match params with
  | none => handler []
  | some data => do
      s.validator.validateRequest method data
      handler data

section List

variable {ι : Type}

-- A map is ranged over in any order of its entries.
def list (method : String) (key : ι → Bytes) (order : List (Definition ι η)) (params : Option Bytes) :
    Except Error (List ι × Bytes) :=
  s.handleRequest method params fun data => do
    let cursor ← unmarshalOptionalParams method codec.listRequest data
    .ok (paginate (order.map (·.item)) cursor key)

def toolsList (order : List (Definition Tool η)) := s.list codec "tools/list" Tool.name order

def promptsList (order : List (Definition Prompt η)) := s.list codec "prompts/list" Prompt.name order

def resourcesList (order : List (Definition Resource η)) := s.list codec "resources/list" Resource.uri order

end List

section Use

variable {ρ : Type}

def serve (method : String) (decode : Bytes → Option ρ) (validate : ρ → Except Error Unit)
    (find : ρ → Except Error η) (params : Option Bytes) : Except Error (η × ρ) :=
  s.handleRequest method params fun data => do
    s.validator.validateRequest method data
    let request ← unmarshal method decode data
    validate request
    let handler ← find request
    .ok (handler, request)

end Use

def findHandler {ι : Type} {key : ι → Bytes} (r : Registry ι η key) (type : String) (name : Bytes) : Except Error η :=
  match r.find name with
  | some d => .ok d.handler
  | none => .error (.notFound type name)

def toolsCall : Option Bytes → Except Error (η × CallToolRequest) :=
  s.serve "tools/call" codec.callToolRequest s.validator.validateCallToolRequest fun params =>
    findHandler s.tools "tool" params.name

def promptsGet : Option Bytes → Except Error (η × GetPromptRequest) :=
  s.serve "prompts/get" codec.getPromptRequest s.validator.validateGetPromptRequest fun params =>
    findHandler s.prompts "prompt" params.name

-- A template matches only itself.
def resourcesRead : Option Bytes → Except Error (η × ReadResourceRequest) :=
  s.serve "resources/read" codec.readResourceRequest s.validator.validateReadResourceRequest fun params =>
    match s.resources.find params.uri with
    | some d => .ok d.handler
    | none => findHandler s.resourceTmpls "resource" params.uri

end Server

section Registered

variable {ι η : Type} {key : ι → Bytes}

variable {r : Registry ι η key} {d : Definition ι η}

theorem Registry.forall_register {P : Definition ι η → Prop} {r' : Registry ι η key} {type : String}
    (registered : r.register type d = .ok r') (old : ∀ e ∈ r.entries, P e) (new : P d) : ∀ e ∈ r'.entries, P e := by
  unfold Registry.register at registered
  split at registered
  · cases registered
  cases registered
  intro e member
  rcases List.mem_append.mp member with earlier | last
  · exact old e earlier
  · rw [List.mem_singleton.mp last]
    exact new

theorem Registry.find_of_mem (member : d ∈ r.entries) : r.find (key d.item) = some d := by
  obtain ⟨entries, unique⟩ := r
  change entries.find? _ = some d
  induction entries with
  | nil => simp at member
  | cons first rest ih =>
    rw [List.map_cons, List.nodup_cons] at unique
    rcases List.mem_cons.mp member with rfl | later
    · simp
    · have other : key first.item ≠ key d.item := by
        intro same
        exact unique.1 (same ▸ List.mem_map_of_mem later)
      rw [List.find?_cons_of_neg (by simpa using other)]
      exact ih unique.2 later

structure Registered (registrations : List (Registration η)) (s : Server η) : Prop where
  validator : s.validator = {}
  tools : ∀ d ∈ s.tools.entries, Registration.tool d.item d.handler ∈ registrations
  prompts : ∀ d ∈ s.prompts.entries, Registration.prompt d.item d.handler ∈ registrations
  resources : ∀ d ∈ s.resources.entries, ∃ resource : Resource, resource.named = d.item ∧
    Registration.resource resource d.handler ∈ registrations

theorem registered_step (before : List (Registration η)) (s : Server η) (r : Registration η) (s' : Server η)
    (registered : Registered before s) (step : (registering η).step s r = some s') : Registered (before ++ [r]) s' := by
  have old : Registered (before ++ [r]) s := by
    refine ⟨registered.validator, ?_, ?_, ?_⟩
    · exact fun d member => List.mem_append_left _ (registered.tools d member)
    · exact fun d member => List.mem_append_left _ (registered.prompts d member)
    · intro d member
      obtain ⟨resource, named, earlier⟩ := registered.resources d member
      exact ⟨resource, named, List.mem_append_left _ earlier⟩
  have last : r ∈ before ++ [r] := by simp
  cases r with
  | tool tool handler =>
    obtain ⟨tools, added, rfl⟩ := toOption_map_eq_some.mp step
    exact ⟨old.validator, Registry.forall_register added old.tools last, old.prompts, old.resources⟩
  | prompt prompt handler =>
    obtain ⟨prompts, added, rfl⟩ := toOption_map_eq_some.mp step
    exact ⟨old.validator, old.tools, Registry.forall_register added old.prompts last, old.resources⟩
  | resource resource handler =>
    obtain ⟨resources, added, rfl⟩ := toOption_map_eq_some.mp step
    have new := Registry.forall_register added old.resources ⟨resource, rfl, last⟩
    exact ⟨old.validator, old.tools, old.prompts, new⟩
  | template template handler =>
    obtain ⟨templates, added, rfl⟩ := toOption_map_eq_some.mp step
    exact ⟨old.validator, old.tools, old.prompts, old.resources⟩

theorem registered_run {registrations : List (Registration η)} {s : Server η}
    (run : (registering η).run {} registrations = some s) : Registered registrations s := by
  have start : Registered [] ({} : Server η) := ⟨rfl, by simp, by simp, by simp⟩
  exact Machine.run_history registered_step start run

end Registered

def Config.Fits (config : Config) (params : Bytes) : Prop :=
  params.length ≤ config.maxRequestSize ∧ JsonSyntax.Valid params = true

theorem Config.validateRequest_ok {config : Config} {params : Bytes} (fits : config.Fits params) (method : String) :
    config.validateRequest method params = .ok () := by
  unfold Config.validateRequest validateRequestSize
  simp only [if_neg (Int.not_lt.mpr fits.1), fits.2]
  rfl

theorem validateField_ok_iff (method field message : String) {valid : Bytes → Bool} {value : Bytes}
    (nonempty : valid [] = false) :
    ({} : Config).validateField method field message valid value = .ok () ↔ valid value = true := by
  by_cases empty : value = []
  · simp [Config.validateField, validateRequiredFields, empty, nonempty, bind, Except.bind]
  · cases format : valid value <;>
      simp [Config.validateField, validateRequiredFields, empty, format, bind, Except.bind]

namespace Server

variable {ι η ρ : Type} {key : ι → Bytes} {s : Server η} {codec : Codec}

variable {method : String} {params : Option Bytes} {handler : η}

theorem serve_ok_iff {field message : String} {valid : Bytes → Bool} {decode : Bytes → Option ρ}
    {name : ρ → Bytes} {find : ρ → Except Error η} {params : Bytes} {request : ρ}
    (default : s.validator = {}) (nonempty : valid [] = false) (fits : ({} : Config).Fits params)
    (decoded : decode params = some request) :
    s.serve method decode (fun r => s.validator.validateField method field message valid (name r)) find
        (some params) = .ok (handler, request) ↔ valid (name request) = true ∧ find request = .ok handler := by
  rw [← validateField_ok_iff method field message nonempty]
  simp only [serve, handleRequest, default, Config.validateRequest_ok fits, unmarshal, decoded, bind, Except.bind]
  cases Config.validateField {} method field message valid (name request) with
  | error e => simp
  | ok accepted => cases find request <;> simp

theorem findHandler_of_mem {r : Registry ι η key} {d : Definition ι η} (member : d ∈ r.entries) (type : String) :
    findHandler r type (key d.item) = .ok d.handler := by
  simp [findHandler, Registry.find_of_mem member]

section Methods

variable {params : Bytes} (default : s.validator = {}) (fits : ({} : Config).Fits params)
include default fits

theorem toolsCall_ok_iff {request : CallToolRequest} (decoded : codec.callToolRequest params = some request)
    (handler : η) : s.toolsCall codec (some params) = .ok (handler, request) ↔
      isValidIdentifier request.name = true ∧ findHandler s.tools "tool" request.name = .ok handler :=
  serve_ok_iff default rfl fits decoded

theorem promptsGet_ok_iff {request : GetPromptRequest} (decoded : codec.getPromptRequest params = some request)
    (handler : η) : s.promptsGet codec (some params) = .ok (handler, request) ↔
      isValidIdentifier request.name = true ∧ findHandler s.prompts "prompt" request.name = .ok handler :=
  serve_ok_iff default rfl fits decoded

theorem resourcesRead_ok {request : ReadResourceRequest} (decoded : codec.readResourceRequest params = some request)
    (valid : isValidURI request.uri = true) {d : Definition Resource η}
    (found : s.resources.find request.uri = some d) :
    s.resourcesRead codec (some params) = .ok (d.handler, request) := by
  refine (serve_ok_iff default rfl fits decoded).mpr ⟨valid, ?_⟩
  simp [found]

end Methods

theorem handleRequest_ok {handler : Bytes → Except Error ρ} {result : ρ}
    (success : s.handleRequest method params handler = .ok result) : ∃ data, handler data = .ok result := by
  cases params with
  | none => exact ⟨[], success⟩
  | some data =>
    obtain ⟨-, -, handled⟩ := bind_eq_ok.mp success
    exact ⟨data, handled⟩

theorem exists_entry {order entries : List (Definition ι η)} {page : List ι} {next : Bytes} (perm : order.Perm entries)
    (answer : s.list codec method key order params = .ok (page, next)) {x : ι} (listed : x ∈ page) :
    ∃ d ∈ entries, d.item = x := by
  obtain ⟨cursor, same⟩ : ∃ cursor, paginate (order.map (·.item)) cursor key = (page, next) := by
    obtain ⟨data, handled⟩ := handleRequest_ok answer
    obtain ⟨cursor, -, paginated⟩ := bind_eq_ok.mp handled
    exact ⟨cursor, Except.ok.inj paginated⟩
  have member : x ∈ (paginate (order.map (·.item)) cursor key).1 := by
    rw [same]
    exact listed
  obtain ⟨d, place, eq⟩ := List.mem_map.mp (Serving.mem_of_mem_paginate member)
  exact ⟨d, perm.subset place, eq⟩

theorem iff_exists_handler {valid : Prop} {recorded reaches : η → Prop}
    (reached : ∀ h, reaches h ↔ valid ∧ (.ok handler : Except Error η) = .ok h) (known : recorded handler) :
    valid ↔ ∃ h, recorded h ∧ reaches h := by
  constructor
  · intro accepted
    exact ⟨handler, known, (reached handler).mpr ⟨accepted, rfl⟩⟩
  · rintro ⟨h, -, answered⟩
    exact ((reached h).mp answered).1

theorem listed_dispatched (codec : Codec) (registrations : List (Registration η)) (s : Server η)
    (run : (registering η).run {} registrations = some s) :
    (∀ order listParams page next, order.Perm s.tools.entries →
      s.toolsList codec order listParams = .ok (page, next) → ∀ tool ∈ page, ∀ params request,
      ({} : Config).Fits params → codec.callToolRequest params = some request → request.name = tool.name →
      (isValidIdentifier tool.name = true ↔ ∃ handler, Registration.tool tool handler ∈ registrations ∧
        s.toolsCall codec (some params) = .ok (handler, request))) ∧
    (∀ order listParams page next, order.Perm s.prompts.entries →
      s.promptsList codec order listParams = .ok (page, next) → ∀ prompt ∈ page, ∀ params request,
      ({} : Config).Fits params → codec.getPromptRequest params = some request → request.name = prompt.name →
      (isValidIdentifier prompt.name = true ↔ ∃ handler, Registration.prompt prompt handler ∈ registrations ∧
        s.promptsGet codec (some params) = .ok (handler, request))) ∧
    ∀ order listParams page next, order.Perm s.resources.entries →
      s.resourcesList codec order listParams = .ok (page, next) → ∀ resource ∈ page, ∀ params request,
      ({} : Config).Fits params → codec.readResourceRequest params = some request → request.uri = resource.uri →
      isValidURI resource.uri = true → ∃ given handler, Resource.named given = resource ∧
        Registration.resource given handler ∈ registrations ∧
        s.resourcesRead codec (some params) = .ok (handler, request) := by
  have registered := registered_run run
  refine ⟨?_, ?_, ?_⟩
  · intro order listParams page next perm answer tool listed params request fits decoded same
    obtain ⟨d, member, rfl⟩ := exists_entry perm answer listed
    have reached := toolsCall_ok_iff registered.validator fits decoded
    rw [same, findHandler_of_mem member] at reached
    exact iff_exists_handler reached (registered.tools d member)
  · intro order listParams page next perm answer prompt listed params request fits decoded same
    obtain ⟨d, member, rfl⟩ := exists_entry perm answer listed
    have reached := promptsGet_ok_iff registered.validator fits decoded
    rw [same, findHandler_of_mem member] at reached
    exact iff_exists_handler reached (registered.prompts d member)
  · intro order listParams page next perm answer resource listed params request fits decoded same valid
    obtain ⟨d, member, rfl⟩ := exists_entry perm answer listed
    obtain ⟨given, named, earlier⟩ := registered.resources d member
    have found := Registry.find_of_mem member
    rw [← same] at found valid
    exact ⟨given, d.handler, named, earlier, resourcesRead_ok registered.validator fits decoded valid found⟩

def plainMember (field : String) (text : Bytes) : Option Bytes :=
  let opening := ofString "\x7b\"" ++ ofString field ++ ofString "\":\""
  let body := (text.drop opening.length).dropLast.dropLast
  let plain := body.all fun b => 32 ≤ b && b < 128 && b ≠ 34 && b ≠ 92
  if text = opening ++ body ++ ofString "\"\x7d" && plain then some body else none

def plainCodec : Codec where
  listRequest := plainMember "cursor"
  callToolRequest text := (plainMember "name" text).map fun name => { name := name }
  getPromptRequest text := (plainMember "name" text).map fun name => { name := name }
  readResourceRequest text := (plainMember "uri" text).map fun uri => { uri := uri }

def callEcho : Bytes := ofString "\x7b\"name\":\"echo\"\x7d"

def readFile : Bytes := ofString "\x7b\"uri\":\"file:///a\"\x7d"

def echoTool : Tool := { name := ofString "echo" }

def echoPrompt : Prompt := { name := ofString "echo" }

def fileResource : Resource := { uri := ofString "file:///a", name := ofString "a" }

def samples : List (Registration Nat) := [.tool echoTool 1, .prompt echoPrompt 2, .resource fileResource 3]

theorem fits_of_checks {params : Bytes}
    (checks : (decide (params.length ≤ 1024 * 1024) && JsonSyntax.Valid params) = true) :
    ({} : Config).Fits params := by
  simp only [Bool.and_eq_true, decide_eq_true_eq] at checks
  exact ⟨Int.ofNat_le.mpr checks.1, checks.2⟩

theorem list_singleton (s : Server η) (codec : Codec) (method : String) (key : ι → Bytes) (d : Definition ι η) :
    s.list codec method key [d] none = .ok ([d.item], []) := by
  simp [list, handleRequest, unmarshalOptionalParams, paginate, Serving.paginate, Serving.pageFrom, Paging.inOrder,
    Serving.defaultPageSize, bind, Except.bind]

theorem listed_dispatched_samples : ∃ s, (registering Nat).run {} samples = some s ∧
    (∃ handler, Registration.tool echoTool handler ∈ samples ∧
      s.toolsCall plainCodec (some callEcho) = .ok (handler, { name := ofString "echo" })) ∧
    (∃ handler, Registration.prompt echoPrompt handler ∈ samples ∧
      s.promptsGet plainCodec (some callEcho) = .ok (handler, { name := ofString "echo" })) ∧
    ∃ given handler, Resource.named given = fileResource ∧ Registration.resource given handler ∈ samples ∧
      s.resourcesRead plainCodec (some readFile) = .ok (handler, { uri := ofString "file:///a" }) := by
  have callFits : ({} : Config).Fits callEcho := fits_of_checks (by decide +kernel)
  have readFits : ({} : Config).Fits readFile := fits_of_checks (by decide +kernel)
  refine ⟨_, rfl, ?_, ?_, ?_⟩
  · have usable := (listed_dispatched plainCodec samples _ rfl).1 _ none _ _ (.refl _) (list_singleton ..)
    exact (usable echoTool (List.mem_singleton_self _) callEcho _ callFits rfl rfl).mp rfl
  · have usable := (listed_dispatched plainCodec samples _ rfl).2.1 _ none _ _ (.refl _) (list_singleton ..)
    exact (usable echoPrompt (List.mem_singleton_self _) callEcho _ callFits rfl rfl).mp rfl
  · have usable := (listed_dispatched plainCodec samples _ rfl).2.2 _ none _ _ (.refl _) (list_singleton ..)
    exact usable fileResource (List.mem_singleton_self _) readFile _ readFits rfl rfl rfl

def callSpaced : Bytes := ofString "\x7b\"name\":\"a b\"\x7d"

theorem listed_rejected : ∃ s : Server Nat,
    (registering Nat).run {} [.tool { name := ofString "a b" } 1] = some s ∧
    s.toolsList plainCodec s.tools.entries none = .ok ([{ name := ofString "a b" }], []) ∧
    ({} : Config).Fits callSpaced ∧ plainCodec.callToolRequest callSpaced = some { name := ofString "a b" } ∧
    s.toolsCall plainCodec (some callSpaced) =
      .error (.parameter "tools/call" "name" "invalid tool name format") := by
  refine ⟨_, rfl, list_singleton .., fits_of_checks (by decide +kernel), rfl, rfl⟩

end Server

end Mcp.Dispatch
