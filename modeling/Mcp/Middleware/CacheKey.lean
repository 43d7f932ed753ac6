import Mcp.Lib.Sha256

namespace Mcp.Middleware
open Mcp.Lib Bytes

structure CacheRequest where
  method : Bytes
  params : Option Bytes
  clientID : Option Bytes

namespace CacheRequest

def hashed (req : CacheRequest) : Bytes := req.method ++ (req.params.getD [] ++ req.clientID.getD [])

def generateKey (req : CacheRequest) : Bytes := Hex.encode (sha256 req.hashed)

def cuts (req : CacheRequest) : Nat × Option Nat × Bool :=
  (req.method.length, req.params.map List.length, req.clientID.isSome)

variable {x y : CacheRequest}

theorem length_getD (text : Option Bytes) : (text.getD []).length = (text.map List.length).getD 0 := by
  cases text <;> rfl

theorem eq_of_getD_eq {a b : Option Bytes} (present : a.isSome = b.isSome) (same : a.getD [] = b.getD []) : a = b := by
  cases a with
  | none =>
    cases b with
    | none => rfl
    | some b => cases present
  | some a =>
    cases b with
    | none => cases present
    | some b => exact congrArg some same

theorem eq_of_hashed_eq (same : x.hashed = y.hashed) (cuts : x.cuts = y.cuts) :
    x.method = y.method ∧ x.params = y.params ∧ x.clientID = y.clientID := by
  obtain ⟨methods, lengths, clients⟩ : x.method.length = y.method.length ∧
      x.params.map List.length = y.params.map List.length ∧ x.clientID.isSome = y.clientID.isSome := by
    simpa only [CacheRequest.cuts, Prod.mk.injEq] using cuts
  have given : x.params.isSome = y.params.isSome := by
    simpa only [Option.isSome_map] using congrArg Option.isSome lengths
  obtain ⟨method, rest⟩ := List.append_inj same methods
  obtain ⟨params, client⟩ := List.append_inj rest (by rw [length_getD, length_getD, lengths])
  exact ⟨method, eq_of_getD_eq given params, eq_of_getD_eq clients client⟩

theorem cuts_eq (method : x.method = y.method) (params : x.params = y.params) (client : x.clientID = y.clientID) :
    x.cuts = y.cuts := by
  rw [cuts, cuts, method, params, client]

theorem generateKey_eq_iff (collisionFree : sha256 x.hashed = sha256 y.hashed → x.hashed = y.hashed) :
    x.generateKey = y.generateKey ↔ x.hashed = y.hashed :=
  ⟨fun same => collisionFree (Hex.encode_injective same), fun same => by rw [generateKey, same]; rfl⟩

theorem generateKey_separates_iff (x y : CacheRequest)
    (collisionFree : sha256 x.hashed = sha256 y.hashed → x.hashed = y.hashed) :
    (x.generateKey = y.generateKey → x.method = y.method ∧ x.params = y.params ∧ x.clientID = y.clientID) ↔
      (x.hashed ≠ y.hashed ∨ x.cuts = y.cuts) := by
  rw [generateKey_eq_iff collisionFree]
  constructor
  · intro separates
    by_cases same : x.hashed = y.hashed
    · obtain ⟨method, params, client⟩ := separates same
      exact .inr (cuts_eq method params client)
    · exact .inl same
  · rintro (different | cuts) same
    · exact absurd same different
    · exact eq_of_hashed_eq same cuts

def listResources : CacheRequest :=
  { method := ofString "resources/list", params := none, clientID := some (ofString "1") }

theorem generateKey_separates_clients :
    (sha256 listResources.hashed = sha256 { listResources with clientID := some (ofString "2") }.hashed →
      listResources.hashed = { listResources with clientID := some (ofString "2") }.hashed) ∧
    listResources.generateKey ≠ { listResources with clientID := some (ofString "2") }.generateKey := by
  have different :
      sha256 listResources.hashed ≠ sha256 { listResources with clientID := some (ofString "2") }.hashed := by
    decide +kernel
  have texts : listResources.hashed ≠ { listResources with clientID := some (ofString "2") }.hashed := by
    decide +kernel
  have separates := (generateKey_separates_iff listResources { listResources with clientID := some (ofString "2") }
    (fun same => absurd same different)).mpr (.inl texts)
  exact ⟨fun same => absurd same different, fun same => absurd (separates same).2.2 (by decide +kernel)⟩

theorem generateKey_mixes_clients :
    listResources.generateKey =
        { method := ofString "resources/list1", params := none, clientID := none : CacheRequest }.generateKey ∧
      listResources.method ≠ ofString "resources/list1" ∧ listResources.clientID ≠ none := by
  have texts : listResources.hashed =
      { method := ofString "resources/list1", params := none, clientID := none : CacheRequest }.hashed := by
    decide +kernel
  exact ⟨congrArg (fun text => Hex.encode (sha256 text)) texts, by decide +kernel, by decide +kernel⟩

end CacheRequest

end Mcp.Middleware
