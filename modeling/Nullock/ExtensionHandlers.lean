import Nullock.ExtensionsApi

namespace Nullock.ExtensionsApi
open Proxy HttpLogic ExtensionPerms

section Grants
variable {E : JsEngine} {T : TextTables}

variable (T) in
def Script.grants (capability : QString) (s : Script E) : Bool :=
  (parsePermissions T s.source).contains capability

def Registration.requestHandler : Registration E → Option (Handler E)
  | .onRequest callback => some callback
  | _ => none

def Registration.responseHandler : Registration E → Option (Handler E)
  | .onResponse callback => some callback
  | _ => none

theorem register_foldl (registers : List (Registration E)) (x : Extensions E) :
    registers.foldl register x = { x with
      onRequestHandlers := x.onRequestHandlers ++
        if x.currentGrants.contains kModifyRequests then
          registers.filterMap Registration.requestHandler
        else []
      onResponseHandlers := x.onResponseHandlers ++
        (registers.filterMap Registration.responseHandler).map
          (fun h => ⟨h, x.currentGrants.contains kModifyResponses⟩) } := by
  induction registers generalizing x with
  | nil => simp only [List.foldl_nil, List.filterMap_nil, ite_self, List.append_nil, List.map_nil]
  | cons r registers ih =>
    rw [List.foldl_cons, ih]
    cases r with
    | notCallable => rfl
    | onResponse callback =>
      simp only [register, isAllowed_modify (show requiresGrant kModifyResponses = true by decide),
        List.filterMap_cons, Registration.requestHandler, Registration.responseHandler,
        List.map_cons, List.append_assoc, List.singleton_append]
    | onRequest callback =>
      simp only [register, isAllowed_modify (show requiresGrant kModifyRequests = true by decide),
        List.filterMap_cons, Registration.requestHandler, Registration.responseHandler]
      cases hgrant : x.currentGrants.contains kModifyRequests with
      | true =>
        simp only [Bool.not_true, Bool.false_eq_true, if_false, hgrant, if_true, List.append_assoc,
          List.singleton_append]
      | false => simp only [Bool.not_false, if_true, hgrant, Bool.false_eq_true, if_false]

theorem evaluate_foldl (scripts : List (Script E)) (x : Extensions E) :
    (scripts.foldl (evaluate T) x).onRequestHandlers = x.onRequestHandlers ++
        (scripts.filter (Script.grants T kModifyRequests)).flatMap
          (fun s => s.registers.filterMap Registration.requestHandler) ∧
      (scripts.foldl (evaluate T) x).onResponseHandlers = x.onResponseHandlers ++
        scripts.flatMap (fun s => (s.registers.filterMap Registration.responseHandler).map
          (fun h => ⟨h, s.grants T kModifyResponses⟩)) := by
  induction scripts generalizing x with
  | nil => exact ⟨(List.append_nil _).symm, (List.append_nil _).symm⟩
  | cons s scripts ih =>
    obtain ⟨hrequest, hresponse⟩ := ih (evaluate T x s)
    rw [List.foldl_cons, hrequest, hresponse, evaluate, register_foldl]
    constructor
    · cases hgrant : Script.grants T kModifyRequests s with
      | true =>
        rw [List.filter_cons_of_pos hgrant, List.flatMap_cons, ← List.append_assoc]
        rw [Script.grants] at hgrant
        simp only [hgrant, if_true]
      | false =>
        rw [List.filter_cons_of_neg (Bool.eq_false_iff.1 hgrant)]
        rw [Script.grants] at hgrant
        simp only [hgrant, Bool.false_eq_true, if_false, List.append_nil]
    · rw [List.flatMap_cons, ← List.append_assoc]
      rfl

theorem callResponseHandler_ungranted (req : ProxiedRequest) (wasTls : Bool) (resp : HttpResponse)
    (fn : Handler E) : callResponseHandler E req wasTls resp ⟨fn, false⟩ = resp := by
  rw [callResponseHandler]
  split
  · rfl
  · rfl

theorem foldl_callResponseHandler (handlers : List (ResponseHandler E)) (req : ProxiedRequest)
    (wasTls : Bool) (resp : HttpResponse) :
    handlers.foldl (callResponseHandler E req wasTls) resp =
      (handlers.filter (·.mayMutate)).foldl (callResponseHandler E req wasTls) resp := by
  induction handlers generalizing resp with
  | nil => rfl
  | cons h handlers ih =>
    obtain ⟨fn, mayMutate⟩ := h
    cases mayMutate with
    | true => exact ih _
    | false =>
      rw [List.foldl_cons, callResponseHandler_ungranted, ih]
      rfl

theorem doMutateResponse_eq (handlers : List (ResponseHandler E)) (req : ProxiedRequest)
    (wasTls : Bool) (resp : HttpResponse) :
    doMutateResponse E handlers req wasTls resp =
      (handlers.filter (·.mayMutate)).foldl (callResponseHandler E req wasTls) resp := by
  rw [doMutateResponse, ← foldl_callResponseHandler]
  cases handlers with
  | nil => rfl
  | cons h handlers => rfl

theorem filter_mayMutate (scripts : List (Script E)) :
    (scripts.flatMap (fun s => (s.registers.filterMap Registration.responseHandler).map
        (fun h => (⟨h, s.grants T kModifyResponses⟩ : ResponseHandler E)))).filter (·.mayMutate) =
      (scripts.filter (Script.grants T kModifyResponses)).flatMap (fun s =>
        (s.registers.filterMap Registration.responseHandler).map
          (fun h => ⟨h, s.grants T kModifyResponses⟩)) := by
  induction scripts with
  | nil => rfl
  | cons s scripts ih =>
    rw [List.flatMap_cons, List.filter_append, ih]
    cases hgrant : Script.grants T kModifyResponses s with
    | true =>
      rw [List.filter_cons_of_pos hgrant, List.flatMap_cons, hgrant, List.filter_eq_self.2]
      intro h hh
      obtain ⟨fn, -, rfl⟩ := List.mem_map.1 hh
      rfl
    | false =>
      rw [List.filter_cons_of_neg (Bool.eq_false_iff.1 hgrant), List.filter_eq_nil_iff.2]
      · rfl
      · intro h hh
        obtain ⟨fn, -, rfl⟩ := List.mem_map.1 hh
        exact Bool.false_ne_true

theorem ungranted_cannot_touch (E : JsEngine) (T : TextTables) (scripts : List (Script E))
    (req : ProxiedRequest) :
    doMutateRequest E (loadAll T scripts).onRequestHandlers req =
        doMutateRequest E
          (loadAll T (scripts.filter (Script.grants T kModifyRequests))).onRequestHandlers req ∧
      ∀ wasTls resp, doMutateResponse E (loadAll T scripts).onResponseHandlers req wasTls resp =
        doMutateResponse E
          (loadAll T (scripts.filter (Script.grants T kModifyResponses))).onResponseHandlers req
          wasTls resp := by
  have hload : ∀ scripts : List (Script E),
      (loadAll T scripts).onRequestHandlers =
          (scripts.filter (Script.grants T kModifyRequests)).flatMap
            (fun s => s.registers.filterMap Registration.requestHandler) ∧
        (loadAll T scripts).onResponseHandlers = scripts.flatMap (fun s =>
          (s.registers.filterMap Registration.responseHandler).map
            (fun h => ⟨h, s.grants T kModifyResponses⟩)) := by
    intro scripts
    exact evaluate_foldl scripts {}
  constructor
  · rw [(hload scripts).1, (hload _).1, List.filter_filter]
    simp only [Bool.and_self]
  · intro wasTls resp
    rw [doMutateResponse_eq, doMutateResponse_eq, (hload scripts).2, (hload _).2,
      filter_mayMutate, filter_mayMutate, List.filter_filter]
    simp only [Bool.and_self]

end Grants

end Nullock.ExtensionsApi
