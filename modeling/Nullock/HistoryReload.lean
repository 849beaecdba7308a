import Nullock.HistoryRecords
import Nullock.JsonText

namespace Nullock.ProjectStore
open Proxy

/-- The line of a transaction is loaded as it behind terminated lines. -/
def Reloads (J : JsonLibrary) (D : DateTimes) (req : HistoryRequest) (resp : HistoryResponse) :
    Prop :=
  ∀ content, Closed 0x0A content →
    loadedEntries J (content ++ (entryLine J D req resp [] ++ [0x0A])) =
      loadedEntries J content ++ [(req, resp)]

def RowReturns (J : JsonLibrary) (D : DateTimes) (req : HistoryRequest) (resp : HistoryResponse) :
    Prop :=
  HistoryIndex.loadFullRow J (HistoryIndex.rowOf J D req resp) = some (req, resp)

variable (J : JsonLibrary) (D : DateTimes) (req : HistoryRequest) (resp : HistoryResponse)

theorem stored_no_annotation : (QJsonValue.object []).Stored J.Exact (depth + 1) :=
  .object .nil (fun _ h => absurd h List.not_mem_nil)

theorem withoutTransport_eq_iff (timestamp : QDateTime) :
    ({ req with tls := false, timestamp } : HistoryRequest) = req ↔
      req.tls = false ∧ req.timestamp = timestamp := by
  constructor
  · intro h
    rw [← h]
    exact ⟨rfl, rfl⟩
  · rintro ⟨htls, htime⟩
    rw [← htls, ← htime]

theorem loadedEntries_line (content : QByteArray) (hc : Closed 0x0A content) :
    loadedEntries J (content ++ (entryLine J D req resp [] ++ [0x0A])) =
      loadedEntries J content ++ [({ req with tls := false, timestamp := none }, resp)] :=
  loadedEntries_append J D req resp ( stored_no_annotation J) hc

theorem reloads_iff : Reloads J D req resp ↔ req.tls = false ∧ req.timestamp = none := by
  rw [← withoutTransport_eq_iff]
  constructor
  · intro h
    have hline := h [] closed_nil
    rw [loadedEntries_line J D req resp [] closed_nil] at hline
    exact (Prod.mk.inj (List.cons.inj (List.append_cancel_left hline)).1).1
  · intro h content hc
    rw [loadedEntries_line J D req resp content hc, h]

theorem rowReturns_iff :
    RowReturns J D req resp ↔ req.tls = false ∧ ∃ t, req.timestamp = some t := by
  rw [RowReturns, HistoryIndex.loadFullRow_rowOf, Option.some.injEq, Prod.mk.injEq,
    withoutTransport_eq_iff]
  constructor
  · rintro ⟨⟨htls, htime⟩, _⟩
    exact ⟨htls, _, htime⟩
  · rintro ⟨htls, t, htime⟩
    refine ⟨⟨htls, ?_⟩, rfl⟩
    rw [htime]
    rfl

/-- No request is returned by both: neither holds the transport, nor do the times agree. -/
theorem request_never_round_trips :
    ¬ (Reloads J D req resp ∧ RowReturns J D req resp) ∧
      (Reloads J D req resp ↔ req.tls = false ∧ req.timestamp = none) ∧
      (RowReturns J D req resp ↔ req.tls = false ∧ ∃ t, req.timestamp = some t) ∧
      (loadedEntries J (entryLine J D req resp [] ++ [0x0A])).map Prod.snd = [resp] ∧
      (HistoryIndex.loadFullRow J (HistoryIndex.rowOf J D req resp)).map Prod.snd = some resp := by
  refine ⟨?_, reloads_iff J D req resp, rowReturns_iff J D req resp, ?_, ?_⟩
  · rw [reloads_iff, rowReturns_iff]
    rintro ⟨⟨_, hnone⟩, _, t, hsome⟩
    rw [hnone] at hsome
    exact absurd hsome (Option.some_ne_none t).symm
  · have hline := loadedEntries_line J D req resp [] closed_nil
    rw [List.nil_append] at hline
    rw [hline]
    rfl
  · rw [HistoryIndex.loadFullRow_rowOf]
    rfl

def epochDates : DateTimes where
  isoDateWithMs date := if date = some 0 then utf16 "1970-01-01T00:00:00.000Z" else []
  fromIsoDate text := if text = utf16 "1970-01-01T00:00:00.000Z" then some 0 else none
  invalidMSecs := 0

def tlsRequest : HistoryRequest where
  method := utf16 "GET"
  target := utf16 "/account"
  httpVersion := utf16 "HTTP/1.1"
  headers := [(utf16 "Host", utf16 "shop.test")]
  path := utf16 "/account"
  body := []
  host := utf16 "shop.test"
  port := 443
  tls := true
  timestamp := some 0
  port_lt := by decide

def okResponse : HistoryResponse where
  httpVersion := utf16 "HTTP/1.1"
  statusCode := 200
  reasonPhrase := utf16 "OK"
  headers := []
  body := []
  peerAddress := utf16 "192.0.2.1"
  wasTls := true
  status_int := by decide

theorem tls_request_lost :
    ¬ Reloads JsonText.textLibrary epochDates tlsRequest okResponse ∧
      ¬ RowReturns JsonText.textLibrary epochDates tlsRequest okResponse := by
  rw [reloads_iff, rowReturns_iff]
  exact ⟨fun h => absurd h.1 (by decide), fun h => absurd h.1 (by decide)⟩

end Nullock.ProjectStore
