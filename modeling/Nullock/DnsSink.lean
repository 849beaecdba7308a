import Nullock.DnsQueries
import Nullock.OastPolling
import Mathlib.Data.List.Sort

namespace Nullock.Oast
open DnsLogic

structure AnswerAddress where
  ipv4 : Vector UInt8 4
  ipv6 : Vector UInt8 16

/-- For the name of the question, to which C00C points. -/
structure DnsRecord where
  type : UInt8 × UInt8
  data : QByteArray

/-- Of class IN, for 30 seconds. -/
def DnsRecord.bytes (r : DnsRecord) : QByteArray :=
  [0xC0, 0x0C, r.type.1, r.type.2, 0, 1, 0, 0, 0, 0x1E, 0, r.data.length.toUInt8] ++ r.data

def answerRecords (ip : AnswerAddress) (qtype : Nat) : List DnsRecord :=
  if qtype = 1 ∨ qtype = 255 then [⟨(0, 1), ip.ipv4.toList⟩]
  else if qtype = 28 then [⟨(0, 0x1C), ip.ipv6.toList⟩]
  else []

/-- The reply; `some none` where the datagram is no query, and none where an octet is read behind
its end. -/
def buildResponse (ip : AnswerAddress) (query : QByteArray) : Option (Option QByteArray) :=
  (parseDnsQuery query).bind fun pq =>
    if !pq.valid then some none
    else
      let records := answerRecords ip pq.qtype
      query[0]?.bind fun i => query[1]?.map fun j =>
        some ([i, j, 0x84, 0, 0, 1, 0, records.length.toUInt8, 0, 0, 0, 0] ++
          (query.drop 12).take (pq.questionEnd - 12) ++ records.flatMap DnsRecord.bytes)

structure Datagram where
  bytes : QByteArray
  sender : QString
  port : Nat
  atMs : Int

def qtypeName (qtype : Nat) : QString :=
  match [(1, "A"), (2, "NS"), (5, "CNAME"), (6, "SOA"), (12, "PTR"), (15, "MX"), (16, "TXT"),
    (28, "AAAA"), (33, "SRV"), (255, "ANY")].lookup qtype with
  | some name => utf16 name
  | none => utf16 "TYPE" ++ QString.number qtype

structure DnsSink extends HostedServer where
  hitCount : Nat := 0
  written : List (Datagram × QByteArray) := []

def dnsHit (g : Datagram) (pq : ParsedQuery) : OastHit :=
  { atMs := g.atMs
    token := extractToken pq.qname
    sourceIp := g.sender
    method := utf16 "DNS"
    hostHeader := pq.qname
    path := qtypeName pq.qtype
    userAgent := utf16 "(dns-resolver)" }

/-- One pass of the loop of `onDatagram`. -/
def DnsSink.onDatagram (ip : AnswerAddress) (s : DnsSink) (g : Datagram) : Option DnsSink :=
  (parseDnsQuery g.bytes).bind fun pq => (buildResponse ip g.bytes).map fun resp =>
    let s := match resp with
      | some resp => { s with written := s.written ++ [(g, resp)] }
      | none => s
    if !pq.valid || (extractToken pq.qname).isEmpty then s
    else
      { s with
        toHostedServer := s.handleClient (dnsHit g pq)
        hitCount := s.hitCount + 1 }

def isQuery (g : Datagram) : Bool := (parseDnsQuery g.bytes).any (·.valid)

def hitOf (g : Datagram) : Option OastHit :=
  (parseDnsQuery g.bytes).bind fun pq =>
    if !pq.valid || (extractToken pq.qname).isEmpty then none else some (dnsHit g pq)

/-- The number of the query, its question, and the records that were asked for; no sink takes it
for a query. -/
structure Replies (ip : AnswerAddress) (query reply : QByteArray) : Prop where
  echoes : ∃ labels a b c e rest, Question query labels a b ∧
    query.drop 12 = wire labels ++ 0 :: a :: b :: c :: e :: rest ∧
    reply = query.take 2 ++
      [0x84, 0, 0, 1, 0, (answerRecords ip (word a b)).length.toUInt8, 0, 0, 0, 0] ++
      (wire labels ++ [0, a, b, c, e]) ++ (answerRecords ip (word a b)).flatMap DnsRecord.bytes
  final : ∀ r, parseDnsQuery reply = some r → r.valid = false

theorem reply_final (h : parseDnsQuery (i :: j :: 0x84 :: rest) = some r) : r.valid = false := by
  refine Bool.eq_false_iff.2 fun hvalid => ?_
  obtain ⟨_, _, _, hq⟩ := question_of_parse h hvalid
  obtain ⟨flags, hflags, hqr, _⟩ := hq.query
  obtain rfl : 0x84 = flags := Option.some.inj hflags
  exact absurd hqr (by decide)

theorem buildResponse_query (ip : AnswerAddress) (h : Question query labels a b) :
    ∃ reply, buildResponse ip query = some (some reply) ∧ Replies ip query reply := by
  obtain ⟨c, e, rest, hbody⟩ := h.body
  have hquestion : (query.drop 12).take (12 + (wire labels).length + 5 - 12) =
      wire labels ++ [0, a, b, c, e] := by
    have hsplit : wire labels ++ 0 :: a :: b :: c :: e :: rest =
        (wire labels ++ [0, a, b, c, e]) ++ rest := by
      rw [List.append_assoc]
      rfl
    rw [hbody, hsplit, Nat.add_assoc, Nat.add_sub_cancel_left]
    exact List.take_left' List.length_append
  obtain ⟨i, j, more, rfl⟩ : ∃ i j more, query = i :: j :: more := by
    have hheader := h.header
    cases query with
    | nil => exact absurd hheader (by decide)
    | cons i query =>
      cases query with
      | nil => exact absurd hheader (Nat.not_le.2 (Nat.lt_of_sub_eq_succ rfl))
      | cons j query => exact ⟨i, j, query, rfl⟩
  refine ⟨_, ?_, ⟨labels, a, b, c, e, rest, h, hbody, rfl⟩, fun r hr => reply_final hr⟩
  rw [buildResponse, parse_of_question h, ← hquestion]
  rfl

/-- What holds after any datagrams: each query, and nothing else, was replied to, and each token
was recorded as a hit under the next number. -/
structure DnsSink.Sound (ip : AnswerAddress) (ds : List Datagram) (s : DnsSink) : Prop where
  numbered : Numbered s.toHostedServer
  counted : s.hitCount = s.recorded.length
  replied : s.written.map Prod.fst = ds.filter isQuery
  replies : ∀ w ∈ s.written, Replies ip w.1.bytes w.2
  recorded : s.recorded.map (fun h => { h with id := 0 }) = ds.filterMap hitOf

theorem DnsSink.Sound.onDatagram {s : DnsSink} (h : s.Sound ip ds) (g : Datagram) :
    ∃ s', s.onDatagram ip g = some s' ∧ s'.Sound ip (ds ++ [g]) := by
  obtain ⟨pq, hpq⟩ := parseDnsQuery_some g.bytes
  have hquery : isQuery g = pq.valid := by rw [isQuery, hpq]; rfl
  have hhit : hitOf g = if !pq.valid || (extractToken pq.qname).isEmpty then none
      else some (dnsHit g pq) := by rw [hitOf, hpq]; rfl
  rw [DnsSink.onDatagram, hpq, Option.bind_some]
  cases hvalid : pq.valid with
  | false =>
    have hnone : buildResponse ip g.bytes = some none := by
      rw [buildResponse, hpq, Option.bind_some, hvalid]
      rfl
    rw [hvalid] at hquery hhit
    refine ⟨s, by rw [hnone]; rfl, h.numbered, h.counted, ?_, h.replies, ?_⟩
    · rw [List.filter_append, List.filter_singleton, hquery, h.replied]
      exact (List.append_nil _).symm
    · rw [List.filterMap_append, h.recorded, List.filterMap_cons, hhit]
      exact (List.append_nil _).symm
  | true =>
    obtain ⟨labels, a, b, hq⟩ := question_of_parse hpq hvalid
    obtain ⟨reply, hreply, hreplies⟩ := buildResponse_query ip hq
    rw [hvalid] at hquery hhit
    have hwritten : ((s.written ++ [(g, reply)]).map Prod.fst = (ds ++ [g]).filter isQuery) ∧
        ∀ w ∈ s.written ++ [(g, reply)], Replies ip w.1.bytes w.2 := by
      constructor
      · rw [List.map_append, h.replied, List.filter_append, List.filter_singleton, hquery]
        rfl
      · intro w hw
        rcases List.mem_append.1 hw with hw | hw
        · exact h.replies w hw
        · rw [List.mem_singleton.1 hw]
          exact hreplies
    rw [hreply, Option.map_some]
    refine ⟨_, rfl, ?_⟩
    cases htoken : (extractToken pq.qname).isEmpty with
    | true =>
      rw [htoken] at hhit
      refine ⟨h.numbered, h.counted, hwritten.1, hwritten.2, ?_⟩
      rw [List.filterMap_append, ← h.recorded, List.filterMap_cons, hhit]
      exact (List.append_nil _).symm
    | false =>
      rw [htoken] at hhit
      refine ⟨h.numbered.handleClient _, ?_, hwritten.1, hwritten.2, ?_⟩
      · change s.hitCount + 1 = (s.recorded ++ [_]).length
        rw [h.counted, List.length_append, List.length_singleton]
      · rw [List.filterMap_append, ← h.recorded, List.filterMap_cons, hhit]
        exact List.map_append

theorem DnsSink.run_sound (ip : AnswerAddress) (ds : List Datagram) :
    ∃ s, ds.foldlM (DnsSink.onDatagram ip) {} = some s ∧ s.Sound ip ds := by
  induction ds using List.reverseRecOn with
  | nil => exact ⟨{}, rfl, ⟨rfl, (fun i c hc => by cases hc), rfl⟩, rfl, rfl,
      (fun w hw => by cases hw), rfl⟩
  | append_singleton ds g ih =>
    obtain ⟨s, hs, hsound⟩ := ih
    obtain ⟨s', hs', hsound'⟩ := hsound.onDatagram g
    refine ⟨s', ?_, hsound'⟩
    rw [List.foldlM_append, hs]
    exact (bind_pure _).trans hs'

end Nullock.Oast
