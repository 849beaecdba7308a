import Nullock.ControlGate
import Nullock.ControlIntake
import Mathlib.Algebra.Order.BigOperators.Group.Finset

namespace Nullock.ControlServer

abbrev blank : QByteArray := crlf ++ crlf

structure ExactRequest (cfg : Config) (stream : QByteArray) (d : Dispatch) : Prop where
  intro ::
  head : ∃ head, stream = head ++ (blank ++ d.body) ∧ indexOf blank stream = some head.length ∧
    head.length + 4 ≤ kMaxHeadBytes ∧
    validateHeaders cfg head = .ok (d.method, d.target, d.body.length)

def Malformed (cfg : Config) (received : QByteArray) : Prop :=
  ∀ stream d, ExactRequest cfg stream d → ¬ received <+: stream

/-- Cut off by its peer or a clock, or without room for its body. -/
def Interrupted (k : Connection) : Prop :=
  k.gone = true ∨ ∃ r, k.answered = some r ∧ (r.status = 408 ∨ r.status = 503)

structure Reading (k : Connection) : Prop where
  finished : k.state.finished = false
  headers : k.state.headers = false
  reserved : k.state.reserved = false
  received : k.received = k.state.buffer ++ k.available
  room : k.state.buffer.length ≤ kMaxHeadBytes
  dispatched : k.dispatched = []

structure Receiving (cfg : Config) (k : Connection) : Prop where
  finished : k.state.finished = false
  headers : k.state.headers = true
  reserved : k.state.reserved = true
  head : ∃ head, k.received = head ++ (blank ++ (k.state.buffer ++ k.available)) ∧
    indexOf blank k.received = some head.length ∧ head.length + 4 ≤ kMaxHeadBytes ∧
    validateHeaders cfg head = .ok (k.state.method, k.state.target, k.state.length)
  dispatched : k.dispatched = []

/-- A connection done with: it gave out one request, or none for a reason. -/
structure Finished (cfg : Config) (k : Connection) : Prop where
  finished : k.state.finished = true
  reserved : k.state.reserved = false
  outcome : k.dispatched = [] ∧ (Interrupted k ∨ Malformed cfg k.received) ∨
    ∃ d stream, k.dispatched = [d] ∧ ExactRequest cfg stream d ∧ stream <+: k.received

inductive Valid (cfg : Config) (k : Connection) : Prop where
  | reading (h : Reading k) (noBlank : indexOf blank k.received = none)
      (rest : k.available = [])
  | receiving (h : Receiving cfg k) (short : k.state.buffer.length < k.state.length)
      (rest : k.available = [])
  | finished (h : Finished cfg k)

def held (k : Connection) : Int := if k.state.reserved then k.state.length else 0

theorem held_free {k : Connection} (h : k.state.reserved = false) : held k = 0 := by
  rw [held, h]
  rfl

theorem held_reserved {k : Connection} (h : k.state.reserved = true) :
    held k = k.state.length := by
  rw [held, h]
  rfl

section Streams
variable {cfg : Config}

theorem indexOf_of_prefix {xs ys : QByteArray} (h : xs <+: ys) (hi : indexOf blank xs = some i) :
    indexOf blank ys = some i := by
  obtain ⟨t, rfl⟩ := h
  exact indexOf_append_right hi t

theorem ExactRequest.unique (h : ExactRequest cfg stream d) (h' : ExactRequest cfg stream' d')
    (hp : stream <+: t) (hp' : stream' <+: t) : d = d' := by
  obtain ⟨head, hs, hi, -, hv⟩ := h.head
  obtain ⟨head', hs', hi', -, hv'⟩ := h'.head
  have hlength : head.length = head'.length := by
    have hsame := ( indexOf_of_prefix hp hi).symm.trans ( indexOf_of_prefix hp' hi')
    exact Option.some.inj hsame
  have hhead : head = head' := by
    have hpre : head <+: t := (List.prefix_append head _).trans (hs ▸ hp)
    have hpre' : head' <+: t := (List.prefix_append head' _).trans (hs' ▸ hp')
    exact (List.prefix_of_prefix_length_le hpre hpre' hlength.le).eq_of_length hlength
  subst hhead
  have hsame := hv.symm.trans hv'
  obtain ⟨hmethod, hrest⟩ := Prod.mk.inj (Except.ok.inj hsame)
  obtain ⟨htarget, hbody⟩ := Prod.mk.inj hrest
  have hstream : stream = stream' := by
    have hlen : stream.length = stream'.length := by
      simp only [hs, hs', List.length_append, hbody]
    exact (List.prefix_of_prefix_length_le hp hp' hlen.le).eq_of_length hlen
  rw [hs, hs'] at hstream
  have hbodies := List.append_cancel_left (List.append_cancel_left hstream)
  cases d
  cases d'
  simp only [Dispatch.mk.injEq]
  exact ⟨hmethod, htarget, hbodies⟩

theorem Malformed.append (h : Malformed cfg received) (more : QByteArray) :
    Malformed cfg (received ++ more) :=
  fun stream d hs hp => h stream d hs ((List.prefix_append received more).trans hp)

theorem ExactRequest.head_of_prefix (h : ExactRequest cfg stream d) (hp : buffer <+: stream)
    (hi : indexOf blank buffer = some sep) :
    sep + 4 ≤ kMaxHeadBytes ∧ stream.length = sep + 4 + d.body.length ∧
      validateHeaders cfg (buffer.take sep) = .ok (d.method, d.target, d.body.length) := by
  obtain ⟨head, hs, hi', hle, hv⟩ := h.head
  have hsep : head.length = sep := Option.some.inj (hi'.symm.trans ( indexOf_of_prefix hp hi))
  have hlt := (indexOf_split hi).2
  have hhead : buffer.take sep = head := by
    obtain ⟨t, ht⟩ := hp
    have hpre : (buffer ++ t).take sep = buffer.take sep :=
      List.take_append_of_le_length (by omega)
    rw [← hpre, ht, hs, ← hsep, List.take_left]
  refine ⟨by omega, ?_, hhead ▸ hv⟩
  have hlen := congrArg List.length hs
  rw [List.length_append, List.length_append] at hlen
  have hblank : blank.length = 4 := rfl
  omega

theorem malformed_noBlank (hp : buffer <+: received) (hi : indexOf blank buffer = none)
    (hlong : kMaxHeadBytes < buffer.length) : Malformed cfg received := by
  intro stream d h hr
  obtain ⟨t, ht⟩ := hp.trans hr
  obtain ⟨head, -, hi', hle, -⟩ := h.head
  have hfound := indexOf_of_append (ht ▸ hi')
  have hblank : blank.length = 4 := rfl
  rw [hi, if_pos (by omega)] at hfound
  cases hfound

theorem malformed_long (hp : buffer <+: received) (hi : indexOf blank buffer = some sep)
    (hlong : kMaxHeadBytes < sep + 4) : Malformed cfg received := by
  intro stream d h hr
  have hle := (h.head_of_prefix (hp.trans hr) hi).1
  omega

theorem malformed_error (hp : buffer <+: received) (hi : indexOf blank buffer = some sep)
    (herror : validateHeaders cfg (buffer.take sep) = .error e) : Malformed cfg received := by
  intro stream d h hr
  have hok := (h.head_of_prefix (hp.trans hr) hi).2.2
  rw [herror] at hok
  cases hok

end Streams

section Lanes
variable {cfg : Config} {x : Lane}

structure Accounts (x x' : Lane) : Prop where
  balance : x'.pendingBodyBytes - held x'.connection = x.pendingBodyBytes - held x.connection
  bound : x.pendingBodyBytes ≤ kMaxPendingBytes → x'.pendingBodyBytes ≤ kMaxPendingBytes
  accepted : x'.connection.accepted = x.connection.accepted

theorem Accounts.refl (x : Lane) : Accounts x x := ⟨rfl, id, rfl⟩

theorem Accounts.trans {x' x'' : Lane} (h : Accounts x x') (h' : Accounts x' x'') :
    Accounts x x'' :=
  ⟨h'.balance.trans h.balance, fun hx => h'.bound (h.bound hx), h'.accepted.trans h.accepted⟩

theorem finish_eq (x : Lane) : x.finish = {
    connection := { x.connection with
      state := { x.connection.state with finished := true, reserved := false } }
    pendingBodyBytes := x.pendingBodyBytes - held x.connection } := by
  obtain ⟨⟨state, available, accepted, received, dispatched, answered, gone⟩, pending⟩ := x
  obtain ⟨buffer, method, target, length, headers, finished, reserved⟩ := state
  cases reserved with
  | true => rfl
  | false => simp [Lane.finish, Lane.release, Lane.setState, held]

theorem accounts_finish (x : Lane) : Accounts x x.finish := by
  rw [finish_eq]
  refine ⟨?_, ?_, rfl⟩
  · show x.pendingBodyBytes - held x.connection - 0 = _
    omega
  · intro hx
    have hheld : 0 ≤ held x.connection := by
      rw [held]
      split
      · exact Int.natCast_nonneg _
      · exact Int.le_refl _
    show x.pendingBodyBytes - held x.connection ≤ _
    omega

theorem accounts_reject (x : Lane) (r : Reply) : Accounts x (x.reject r) := by
  have h := accounts_finish x
  exact ⟨h.balance, h.bound, h.accepted⟩

theorem accounts_dispatchRequest (x : Lane) : Accounts x x.dispatchRequest := by
  have h := accounts_finish x
  exact ⟨h.balance, h.bound, h.accepted⟩

theorem finished_reject (x : Lane) (r : Reply) (h : x.connection.dispatched = [])
    (hwhy : (r.status = 408 ∨ r.status = 503) ∨ Malformed cfg x.connection.received) :
    Finished cfg (x.reject r).connection := by
  rw [Lane.reject, finish_eq]
  refine ⟨rfl, rfl, .inl ⟨h, ?_⟩⟩
  rcases hwhy with hstatus | hmalformed
  · exact .inl (.inr ⟨r, rfl, hstatus⟩)
  · exact .inr hmalformed

theorem finished_dispatchRequest (h : x.connection.dispatched = [])
    (hrequest : ExactRequest cfg stream
      ⟨x.connection.state.method, x.connection.state.target, x.connection.state.buffer⟩)
    (hp : stream <+: x.connection.received) : Finished cfg x.dispatchRequest.connection := by
  rw [Lane.dispatchRequest, finish_eq]
  refine ⟨rfl, rfl, .inr ⟨_, stream, ?_, hrequest, hp⟩⟩
  show x.connection.dispatched ++ [_] = [_]
  rw [h]
  rfl

theorem Receiving.exact (h : Receiving cfg x.connection)
    (hlength : x.connection.state.buffer.length = x.connection.state.length) :
    Finished cfg x.dispatchRequest.connection := by
  obtain ⟨head, hreceived, hi, hle, hvalid⟩ := h.head
  have hp : head ++ (blank ++ x.connection.state.buffer) <+: x.connection.received := by
    rw [hreceived]
    exact ⟨x.connection.available, by simp only [List.append_assoc]⟩
  refine finished_dispatchRequest h.dispatched ⟨head, rfl, ?_, hle, ?_⟩ hp
  · obtain ⟨t, ht⟩ := hp
    have hfound := indexOf_of_append (ht ▸ hi)
    rw [if_pos (by simp only [List.length_append]; omega)] at hfound
    exact hfound
  · rw [hlength]
    exact hvalid

theorem Receiving.long (h : Receiving cfg x.connection)
    (hlength : x.connection.state.length < x.connection.state.buffer.length) :
    Malformed cfg x.connection.received := by
  obtain ⟨head, hreceived, hi, hle, hvalid⟩ := h.head
  intro stream d hrequest hp
  obtain ⟨-, hlen, hok⟩ := hrequest.head_of_prefix hp hi
  have htake : x.connection.received.take head.length = head := by
    rw [hreceived, List.take_left]
  rw [htake, hvalid] at hok
  obtain ⟨-, hrest⟩ := Prod.mk.inj (Except.ok.inj hok)
  obtain ⟨-, hbody⟩ := Prod.mk.inj hrest
  have hle' := hp.length_le
  have hlen' := congrArg List.length hreceived
  simp only [List.length_append] at hlen'
  have hcrlf : crlf.length = 2 := rfl
  omega

theorem valid_readBody (h : Receiving cfg x.connection) (expired : Bool) :
    Valid cfg (x.readBody expired).connection ∧ Accounts x (x.readBody expired) := by
  rw [Lane.readBody]
  dsimp only
  split
  · rename_i hshort
    have hmore : Receiving cfg { x.connection with
        state := { x.connection.state with
          buffer := x.connection.state.buffer ++ x.connection.available.take
            (x.connection.state.length - x.connection.state.buffer.length) }
        available := x.connection.available.drop
          (x.connection.state.length - x.connection.state.buffer.length) } := by
      obtain ⟨head, hreceived, hrest⟩ := h.head
      refine ⟨h.finished, h.headers, h.reserved, ⟨head, ?_, hrest⟩, h.dispatched⟩
      rw [hreceived]
      simp only [List.append_assoc, List.take_append_drop]
    have hread : Accounts x { x with connection := { x.connection with
        state := { x.connection.state with
          buffer := x.connection.state.buffer ++ x.connection.available.take
            (x.connection.state.length - x.connection.state.buffer.length) }
        available := x.connection.available.drop
          (x.connection.state.length - x.connection.state.buffer.length) } } := ⟨rfl, id, rfl⟩
    split
    · exact ⟨.finished (finished_reject _ _ h.dispatched (.inl (.inl rfl))),
        hread.trans (accounts_reject _ _)⟩
    split
    · rename_i hstill
      refine ⟨.receiving hmore hstill ?_, hread⟩
      refine List.drop_eq_nil_of_le ?_
      rw [List.length_append, List.length_take] at hstill
      omega
    · rename_i hstill
      refine ⟨.finished (hmore.exact ?_), hread.trans (accounts_dispatchRequest _)⟩
      show (x.connection.state.buffer ++ x.connection.available.take
        (x.connection.state.length - x.connection.state.buffer.length)).length =
          x.connection.state.length
      rw [List.length_append, List.length_take] at hstill ⊢
      omega
  split
  · rename_i hlong
    exact ⟨.finished (finished_reject x _ h.dispatched (.inr (h.long hlong))),
      accounts_reject x _⟩
  · rename_i hshort hlong
    have hlength : x.connection.state.buffer.length = x.connection.state.length := by omega
    exact ⟨.finished (h.exact hlength), accounts_dispatchRequest x⟩

theorem valid_reserve (x : Lane) (p : Pending) (hdispatched : x.connection.dispatched = [])
    (hfree : x.connection.state.reserved = false) (hp : p.finished = false)
    (hreserved : p.reserved = false) (hhead : ∃ head,
      x.connection.received = head ++ (blank ++ (p.buffer ++ x.connection.available)) ∧
      indexOf blank x.connection.received = some head.length ∧ head.length + 4 ≤ kMaxHeadBytes ∧
      validateHeaders cfg head = .ok (p.method, p.target, p.length)) (expired : Bool) :
    Valid cfg (x.reserve p expired).connection ∧ Accounts x (x.reserve p expired) := by
  have hset : Accounts x (x.setState p) := by
    refine ⟨?_, id, rfl⟩
    show x.pendingBodyBytes - held { x.connection with state := p } = _
    rw [held_free hreserved, held_free hfree]
  rw [Lane.reserve]
  dsimp only
  split
  · exact ⟨.finished (finished_reject _ _ hdispatched (.inl (.inr rfl))),
      hset.trans (accounts_reject _ _)⟩
  · rename_i hroom
    have hreceiving : Receiving cfg { x.connection with
        state := { p with headers := true, reserved := true } } :=
      ⟨hp, rfl, rfl, hhead, hdispatched⟩
    have hreserve : Accounts x { x.setState { p with headers := true, reserved := true } with
        pendingBodyBytes := x.pendingBodyBytes + p.length } := by
      refine ⟨?_, fun _ => Int.not_lt.1 hroom, rfl⟩
      show x.pendingBodyBytes + p.length - held { x.connection with
        state := { p with headers := true, reserved := true } } = _
      rw [held_reserved rfl, held_free hfree]
      show x.pendingBodyBytes + p.length - p.length = x.pendingBodyBytes - 0
      omega
    obtain ⟨hvalid, hbody⟩ := valid_readBody (x := { x.setState
      { p with headers := true, reserved := true } with
        pendingBodyBytes := x.pendingBodyBytes + p.length }) hreceiving expired
    exact ⟨hvalid, hreserve.trans hbody⟩

theorem valid_readHead (h : Reading x.connection) (expired : Bool) :
    Valid cfg (x.readHead cfg expired).connection ∧ Accounts x (x.readHead cfg expired) := by
  have hroom := h.room
  have hcap : x.connection.state.buffer.length < kMaxHeadBytes + 1 := by omega
  generalize hbuffer : x.connection.state.buffer ++ x.connection.available.take
    (kMaxHeadBytes + 1 - x.connection.state.buffer.length) = buffer
  have hreceived : x.connection.received = buffer ++ x.connection.available.drop
      (kMaxHeadBytes + 1 - x.connection.state.buffer.length) := by
    rw [h.received, ← hbuffer, List.append_assoc, List.take_append_drop]
  have hp : buffer <+: x.connection.received := ⟨_, hreceived.symm⟩
  have hlength : buffer.length = x.connection.state.buffer.length +
      min (kMaxHeadBytes + 1 - x.connection.state.buffer.length)
        x.connection.available.length := by
    rw [← hbuffer, List.length_append, List.length_take]
  rw [Lane.readHead]
  simp only [hbuffer]
  have hread : Accounts x { x with connection := { x.connection with
      state := { x.connection.state with buffer := buffer }
      available := x.connection.available.drop
        (kMaxHeadBytes + 1 - x.connection.state.buffer.length) } } := ⟨rfl, id, rfl⟩
  cases hi : indexOf (crlf ++ crlf) buffer with
  | none =>
    dsimp only
    split
    · rename_i hlong
      exact ⟨.finished (finished_reject _ _ h.dispatched
        (.inr (malformed_noBlank hp hi hlong))), hread.trans (accounts_reject _ _)⟩
    · rename_i hshort
      have hrest : x.connection.available.drop
          (kMaxHeadBytes + 1 - x.connection.state.buffer.length) = [] :=
        List.drop_eq_nil_of_le (by omega)
      refine ⟨.reading ⟨h.finished, h.headers, h.reserved, hreceived, Nat.not_lt.1 hshort,
        h.dispatched⟩ ?_ hrest, hread⟩
      show indexOf blank x.connection.received = none
      rw [hreceived, hrest, List.append_nil]
      exact hi
  | some sep =>
    dsimp only
    split
    · rename_i hlong
      exact ⟨.finished (finished_reject _ _ h.dispatched (.inr (malformed_long hp hi hlong))),
        hread.trans (accounts_reject _ _)⟩
    · rename_i hshort
      cases hvalid : validateHeaders cfg (buffer.take sep) with
      | error e =>
        exact ⟨.finished (finished_reject _ _ h.dispatched
          (.inr (malformed_error hp hi hvalid))), hread.trans (accounts_reject _ _)⟩
      | ok r =>
        obtain ⟨method, target, length⟩ := r
        obtain ⟨hsplit, hle⟩ := indexOf_split hi
        have hhead : (buffer.take sep).length = sep := List.length_take_of_le (by omega)
        have hfound : indexOf blank x.connection.received = some (buffer.take sep).length := by
          rw [hhead]
          exact indexOf_of_prefix hp hi
        have hparts : x.connection.received = buffer.take sep ++ (blank ++ (buffer.drop (sep + 4) ++
            x.connection.available.drop
              (kMaxHeadBytes + 1 - x.connection.state.buffer.length))) := by
          conv_lhs => rw [hreceived, hsplit]
          simp only [List.append_assoc]
          rfl
        obtain ⟨hdone, haccounts⟩ := valid_reserve { x with
            connection := { x.connection with
              state := { x.connection.state with buffer := buffer }
              available := x.connection.available.drop
                (kMaxHeadBytes + 1 - x.connection.state.buffer.length) } }
          { x.connection.state with
            buffer := buffer.drop (sep + 4), method := method, target := target, length := length }
          h.dispatched h.reserved h.finished h.reserved
          ⟨buffer.take sep, hparts, hfound, by omega, hvalid⟩ expired
        exact ⟨hdone, hread.trans haccounts⟩

theorem Finished.append {k : Connection} (h : Finished cfg k) (available more : QByteArray) :
    Finished cfg { k with available := available, received := k.received ++ more } := by
  refine ⟨h.finished, h.reserved, ?_⟩
  rcases h.outcome with ⟨hnone, hwhy⟩ | ⟨d, stream, hd, hrequest, hp⟩
  · exact .inl ⟨hnone, hwhy.imp id (fun hmalformed => hmalformed.append more)⟩
  · exact .inr ⟨d, stream, hd, hrequest, hp.trans (List.prefix_append _ more)⟩

theorem valid_read {k : Connection} (h : Valid cfg k) (bytes : QByteArray) (pending : Int)
    (expired : Bool) :
    let x : Lane := ⟨{ k with
      available := k.available ++ bytes, received := k.received ++ bytes }, pending⟩
    Valid cfg (x.read cfg expired).connection ∧ Accounts x (x.read cfg expired) := by
  intro x
  rw [Lane.read]
  cases h with
  | reading h _ _ =>
    have hreading : Reading x.connection := by
      refine ⟨h.finished, h.headers, h.reserved, ?_, h.room, h.dispatched⟩
      show k.received ++ bytes = k.state.buffer ++ (k.available ++ bytes)
      rw [h.received, List.append_assoc]
    rw [show x.connection.state.finished = false from h.finished,
      show x.connection.state.headers = false from h.headers]
    exact valid_readHead hreading expired
  | receiving h _ _ =>
    have hreceiving : Receiving cfg x.connection := by
      obtain ⟨head, hreceived, hi, hle, hvalid⟩ := h.head
      refine ⟨h.finished, h.headers, h.reserved,
        ⟨head, ?_, indexOf_of_prefix (List.prefix_append _ bytes) hi, hle, hvalid⟩, h.dispatched⟩
      show k.received ++ bytes =
        head ++ (blank ++ (k.state.buffer ++ (k.available ++ bytes)))
      rw [hreceived]
      simp only [List.append_assoc]
    rw [show x.connection.state.finished = false from h.finished,
      show x.connection.state.headers = true from h.headers]
    exact valid_readBody hreceiving expired
  | finished h =>
    rw [show x.connection.state.finished = true from h.finished]
    exact ⟨.finished (h.append _ bytes), .refl x⟩

theorem Valid.dispatched (h : Valid cfg k) (hopen : k.state.finished = false) :
    k.dispatched = [] := by
  cases h with
  | reading h _ _ => exact h.dispatched
  | receiving h _ _ => exact h.dispatched
  | finished h => exact absurd (h.finished.symm.trans hopen) (by decide)

theorem valid_timeout {k : Connection} (h : Valid cfg k) (hopen : k.state.finished = false)
    (pending : Int) {r : Reply} (hr : r.status = 408) :
    Valid cfg (Lane.reject ⟨k, pending⟩ r).connection :=
  .finished (finished_reject ⟨k, pending⟩ r (h.dispatched hopen) (.inl (.inl hr)))

theorem valid_gone {k : Connection} (h : Valid cfg k) (pending : Int) :
    Valid cfg (Lane.finish ⟨{ k with gone := true }, pending⟩).connection := by
  rw [finish_eq]
  have hgone : ∀ k' : Connection, k'.gone = true → Interrupted k' := fun _ h => .inl h
  have hopen : k.dispatched = [] → Finished cfg { k with
      state := { k.state with finished := true, reserved := false }, gone := true } :=
    fun hnone => ⟨rfl, rfl, .inl ⟨hnone, .inl (hgone _ rfl)⟩⟩
  cases h with
  | reading h _ _ => exact .finished (hopen h.dispatched)
  | receiving h _ _ => exact .finished (hopen h.dispatched)
  | finished h =>
    rcases h.outcome with ⟨hnone, -⟩ | hdone
    · exact .finished (hopen hnone)
    · exact .finished ⟨rfl, rfl, .inr hdone⟩

end Lanes

section Servers
variable {ι : Type} {cfg : Config}

structure Sound (cfg : Config) (s : Server ι) : Prop where
  valid : ∀ c, Valid cfg (s.sockets c)
  fresh : ∀ c, (s.sockets c).accepted = false → s.sockets c = {}
  tracked : ∀ c, (s.sockets c).accepted = true → (s.sockets c).state.finished = false →
    c ∈ s.connections
  accepted : ∀ c ∈ s.connections, (s.sockets c).accepted = true
  budget : s.pendingBodyBytes = ∑ c ∈ s.connections, held (s.sockets c)
  bound : s.pendingBodyBytes ≤ kMaxPendingBytes
  few : s.connections.card ≤ kMaxConnections

variable (cfg) in
theorem valid_new (accepted : Bool) : Valid cfg { accepted := accepted } :=
  .reading ⟨rfl, rfl, rfl, rfl, Nat.zero_le _, rfl⟩ (show indexOf blank [] = none by decide) rfl

theorem sound_init : Sound cfg ({} : Server ι) where
  valid _ := valid_new cfg false
  fresh _ _ := rfl
  tracked _ h := Bool.noConfusion h
  accepted _ h := absurd h (Finset.notMem_empty _)
  budget := rfl
  bound := Int.natCast_nonneg _
  few := Nat.zero_le _

variable [DecidableEq ι] {s : Server ι} {x : Lane}

theorem sockets_setLane_self (s : Server ι) (c : ι) (x : Lane) :
    (s.setLane c x).sockets c = x.connection := Function.update_self ..

theorem sockets_setLane_of_ne (s : Server ι) {c d : ι} (x : Lane) (h : d ≠ c) :
    (s.setLane c x).sockets d = s.sockets d := Function.update_of_ne h ..

theorem sum_setLane (s : Server ι) (x : Lane) {c : ι} {t : Finset ι} (h : c ∉ t) :
    ∑ d ∈ t, held ((s.setLane c x).sockets d) = ∑ d ∈ t, held (s.sockets d) := by
  refine Finset.sum_congr rfl (fun d hd => ?_)
  have hne : d ≠ c := fun he => h (he ▸ hd)
  rw [sockets_setLane_of_ne s x hne]

theorem Sound.setLane (h : Sound cfg s) (hc : c ∈ s.connections) (hvalid : Valid cfg x.connection)
    (haccounts : Accounts (s.lane c) x) : Sound cfg (s.setLane c x) where
  valid d := by
    by_cases hd : d = c
    · subst hd
      rw [sockets_setLane_self]
      exact hvalid
    · rw [sockets_setLane_of_ne s x hd]
      exact h.valid d
  fresh d := by
    by_cases hd : d = c
    · subst hd
      rw [sockets_setLane_self, haccounts.accepted]
      intro hno
      exact absurd (h.accepted d hc) (by rw [show (s.sockets d).accepted = false from hno]; decide)
    · rw [sockets_setLane_of_ne s x hd]
      exact h.fresh d
  tracked d := by
    by_cases hd : d = c
    · subst hd
      exact fun _ _ => hc
    · rw [sockets_setLane_of_ne s x hd]
      exact h.tracked d
  accepted d hd := by
    by_cases hdc : d = c
    · subst hdc
      rw [sockets_setLane_self, haccounts.accepted]
      exact h.accepted d hd
    · rw [sockets_setLane_of_ne s x hdc]
      exact h.accepted d hd
  budget := by
    have hold := h.budget
    have hbalance : x.pendingBodyBytes - held x.connection =
        s.pendingBodyBytes - held (s.sockets c) := haccounts.balance
    show x.pendingBodyBytes = ∑ d ∈ s.connections, held ((s.setLane c x).sockets d)
    rw [← Finset.add_sum_erase _ _ hc] at hold ⊢
    rw [sum_setLane s x (Finset.notMem_erase c _), sockets_setLane_self]
    omega
  bound := haccounts.bound h.bound
  few := h.few

theorem Sound.insert (h : Sound cfg s) (hc : (s.sockets c).accepted = false)
    (hroom : s.connections.card < kMaxConnections) (hvalid : Valid cfg x.connection)
    (haccounts : Accounts ⟨{ accepted := true }, s.pendingBodyBytes⟩ x) :
    Sound cfg { s.setLane c x with connections := insert c s.connections } := by
  have hnew : c ∉ s.connections := by
    intro hmem
    have hyes := h.accepted c hmem
    rw [hc] at hyes
    exact Bool.false_ne_true hyes
  constructor
  · intro d
    by_cases hd : d = c
    · subst hd
      show Valid cfg ((s.setLane d x).sockets d)
      rw [sockets_setLane_self]
      exact hvalid
    · show Valid cfg ((s.setLane c x).sockets d)
      rw [sockets_setLane_of_ne s x hd]
      exact h.valid d
  · intro d hno
    by_cases hd : d = c
    · subst hd
      have hyes : ((s.setLane d x).sockets d).accepted = true := by
        rw [sockets_setLane_self, haccounts.accepted]
      exact absurd (hyes.symm.trans hno) (by decide)
    · have hsame := sockets_setLane_of_ne s x hd
      exact hsame.trans (h.fresh d ((congrArg (·.accepted) hsame).symm.trans hno))
  · intro d hyes hopen
    by_cases hd : d = c
    · subst hd
      exact Finset.mem_insert_self d _
    · have hsame := sockets_setLane_of_ne s x hd
      exact Finset.mem_insert_of_mem (h.tracked d
        ((congrArg (·.accepted) hsame).symm.trans hyes)
        ((congrArg (·.state.finished) hsame).symm.trans hopen))
  · intro d hd
    show ((s.setLane c x).sockets d).accepted = true
    rcases Finset.mem_insert.1 hd with rfl | hd
    · rw [sockets_setLane_self, haccounts.accepted]
    · have hne : d ≠ c := fun he => hnew (he ▸ hd)
      rw [sockets_setLane_of_ne s x hne]
      exact h.accepted d hd
  · have hbalance : x.pendingBodyBytes - held x.connection = s.pendingBodyBytes - 0 :=
      haccounts.balance
    have hold := h.budget
    show x.pendingBodyBytes = ∑ d ∈ Insert.insert c s.connections, held ((s.setLane c x).sockets d)
    rw [Finset.sum_insert hnew, sum_setLane s x hnew, sockets_setLane_self]
    omega
  · exact haccounts.bound h.bound
  · show (Insert.insert c s.connections).card ≤ _
    rw [Finset.card_insert_of_notMem hnew]
    exact hroom

theorem Sound.erase (h : Sound cfg s) (hfinished : (s.sockets c).state.finished = true)
    (hfree : (s.sockets c).state.reserved = false) :
    Sound cfg { s with connections := s.connections.erase c } where
  valid := h.valid
  fresh := h.fresh
  tracked d hyes hopen := by
    refine Finset.mem_erase.2 ⟨fun he => ?_, h.tracked d hyes hopen⟩
    rw [he, hfinished] at hopen
    cases hopen
  accepted d hd := h.accepted d (Finset.mem_of_mem_erase hd)
  budget := by
    have hold := h.budget
    show s.pendingBodyBytes = ∑ d ∈ s.connections.erase c, held (s.sockets d)
    by_cases hc : c ∈ s.connections
    · rw [← Finset.add_sum_erase _ _ hc, held_free hfree] at hold
      omega
    · rw [Finset.erase_eq_of_notMem hc]
      exact hold
  bound := h.bound
  few := Nat.le_trans (Finset.card_erase_le) h.few

theorem Sound.onDisconnected (h : Sound cfg s) (c : ι) : Sound cfg (s.onDisconnected c) := by
  rw [Server.onDisconnected]
  split
  · rename_i hc
    have haccounts := accounts_finish ⟨{ s.sockets c with gone := true }, s.pendingBodyBytes⟩
    have hset := h.setLane hc (valid_gone (h.valid c) s.pendingBodyBytes)
      ⟨haccounts.balance, haccounts.bound, haccounts.accepted⟩
    refine Sound.erase hset ?_ ?_
    · rw [sockets_setLane_self, finish_eq]
    · rw [sockets_setLane_self, finish_eq]
  · exact h

theorem Sound.step (h : Sound cfg s) (e : Event ι) : Sound cfg (s.step cfg e) := by
  cases e with
  | newConnection c =>
    show Sound cfg (s.onNewConnection cfg c)
    rw [Server.onNewConnection]
    split
    · exact h
    · rename_i hroom
      rw [Bool.or_eq_true, not_or, Bool.not_eq_true, decide_eq_true_eq, Nat.not_le] at hroom
      obtain ⟨hvalid, haccounts⟩ := valid_read (valid_new cfg true) []
        s.pendingBodyBytes false
      rw [h.fresh c hroom.1]
      exact h.insert hroom.1 hroom.2 hvalid haccounts
  | readyRead c bytes expired =>
    show Sound cfg (s.onReadyRead cfg c bytes expired)
    rw [Server.onReadyRead]
    split
    · rename_i hc
      obtain ⟨hvalid, haccounts⟩ := valid_read (h.valid c) bytes s.pendingBodyBytes expired
      exact h.setLane hc hvalid ⟨haccounts.balance, haccounts.bound, haccounts.accepted⟩
    · exact h
  | timeout c =>
    show Sound cfg (s.onTimeout c)
    rw [Server.onTimeout]
    split
    · rename_i hc
      dsimp only
      split
      · exact h.onDisconnected c
      · rename_i hopen
        refine h.setLane hc (valid_timeout (h.valid c) (Bool.eq_false_iff.2 hopen) _ ?_)
          (accounts_reject _ _)
        split
        · rfl
        · rfl
    · exact h
  | disconnected c => exact h.onDisconnected c

theorem Sound.run (h : Sound cfg s) (events : List (Event ι)) :
    Sound cfg (events.foldl (Server.step cfg) s) := by
  induction events generalizing s with
  | nil => exact h
  | cons e events ih => exact ih (h.step e)

theorem Valid.held_eq (h : Valid cfg k) : held k =
    if k.state.headers && !k.state.finished then (k.state.length : Int) else 0 := by
  cases h with
  | reading h _ _ => rw [held_free h.reserved, h.headers, h.finished]; rfl
  | receiving h _ _ => rw [held_reserved h.reserved, h.headers, h.finished]; rfl
  | finished h => rw [held_free h.reserved, h.finished, Bool.not_true, Bool.and_false]; rfl

end Servers

structure IntakeHolds {ι : Type} (cfg : Config) (hostOk : QByteArray → Bool) (s : Server ι) :
    Prop where
  once : ∀ c, (s.sockets c).dispatched.length ≤ 1
  gated : ∀ c, ∀ d ∈ (s.sockets c).dispatched, ∃ n,
    indexOf blank (s.sockets c).received = some n ∧
    Gate cfg hostOk (headerFields ((s.sockets c).received.take n)) d.method ∧
    validateHeaders cfg ((s.sockets c).received.take n) =
      .ok (d.method, d.target, d.body.length) ∧
    d.body <+: (s.sockets c).received.drop (n + 4)
  tracked : ∀ c, (s.sockets c).state.headers = true → (s.sockets c).state.finished = false →
    c ∈ s.connections
  budget : s.pendingBodyBytes = ∑ c ∈ s.connections with
    ((s.sockets c).state.headers && !(s.sockets c).state.finished) = true,
    ((s.sockets c).state.length : Int)
  nonneg : 0 ≤ s.pendingBodyBytes
  bound : s.pendingBodyBytes ≤ kMaxPendingBytes
  few : s.connections.card ≤ kMaxConnections
  segmented : ∀ c stream d, ExactRequest cfg stream d → (s.sockets c).received <+: stream →
    ((s.sockets c).dispatched = [] ∨ (s.sockets c).dispatched = [d]) ∧
      (c ∈ s.connections → (s.sockets c).received = stream →
        (s.sockets c).dispatched = [d] ∨ Interrupted (s.sockets c))

section Guarantees
variable {ι : Type} {cfg : Config} {s : Server ι}

theorem ExactRequest.parts (h : ExactRequest cfg stream d) (hp : stream <+: t) : ∃ n,
    indexOf blank t = some n ∧ validateHeaders cfg (t.take n) =
      .ok (d.method, d.target, d.body.length) ∧ d.body <+: t.drop (n + 4) := by
  obtain ⟨head, hs, hi, -, hvalid⟩ := h.head
  obtain ⟨rest, rfl⟩ := hp
  refine ⟨head.length, indexOf_append_right hi rest, ?_, rest, ?_⟩
  · rw [hs, List.append_assoc, List.take_left]
    exact hvalid
  · have hsplit : stream ++ rest = (head ++ blank) ++ (d.body ++ rest) := by
      rw [hs]
      simp only [List.append_assoc]
    rw [hsplit]
    exact (List.drop_left' (by rw [List.length_append]; rfl)).symm

theorem Valid.outcome (h : Valid cfg k) : k.dispatched = [] ∨
    ∃ d stream, k.dispatched = [d] ∧ ExactRequest cfg stream d ∧ stream <+: k.received := by
  cases h with
  | reading h _ _ => exact .inl h.dispatched
  | receiving h _ _ => exact .inl h.dispatched
  | finished h => exact h.outcome.imp (·.1) id

theorem Valid.complete (h : Valid cfg k) (hrequest : ExactRequest cfg k.received d) :
    k.dispatched = [d] ∨ Interrupted k := by
  obtain ⟨head, hs, hi, hle, hvalid⟩ := hrequest.head
  cases h with
  | reading h hno _ =>
    rw [hi] at hno
    cases hno
  | receiving h hshort hrest =>
    obtain ⟨head', hs', hi', -, hvalid'⟩ := h.head
    have hlength : head.length = head'.length := Option.some.inj (hi.symm.trans hi')
    rw [hrest, List.append_nil] at hs'
    have hhead := (List.append_inj (hs.symm.trans hs') hlength)
    obtain ⟨rfl, htail⟩ := hhead
    have hbody := List.append_cancel_left htail
    obtain ⟨-, hlen⟩ := Prod.mk.inj (Prod.mk.inj (Except.ok.inj (hvalid.symm.trans hvalid'))).2
    rw [hbody] at hlen
    omega
  | finished h =>
    rcases h.outcome with ⟨-, hwhy⟩ | ⟨d', stream, hd, hrequest', hp⟩
    · rcases hwhy with hcut | hmalformed
      · exact .inr hcut
      · exact absurd (List.prefix_refl _) (hmalformed _ _ hrequest)
    · rw [hd, hrequest'.unique hrequest hp (List.prefix_refl _)]
      exact .inl rfl

theorem Sound.intakeHolds (h : Sound cfg s) : IntakeHolds cfg (isOwnHost cfg.listeningPort) s where
  once c := by
    rcases (h.valid c).outcome with hnone | ⟨d, stream, hd, -⟩
    · rw [hnone]
      exact Nat.zero_le _
    · rw [hd]
      exact Nat.le_refl _
  gated c d hmem := by
    rcases (h.valid c).outcome with hnone | ⟨d', stream, hd, hrequest, hp⟩
    · rw [hnone] at hmem
      exact absurd hmem List.not_mem_nil
    · rw [hd, List.mem_singleton] at hmem
      subst hmem
      obtain ⟨n, hi, hvalid, hbody⟩ := hrequest.parts hp
      exact ⟨n, hi, validateHeaders_gate hvalid, hvalid, hbody⟩
  tracked c hheaders hopen := by
    refine h.tracked c ?_ hopen
    cases haccepted : (s.sockets c).accepted with
    | true => rfl
    | false =>
      rw [h.fresh c haccepted] at hheaders
      cases hheaders
  budget := by
    rw [h.budget, Finset.sum_filter]
    exact Finset.sum_congr rfl (fun c _ => (h.valid c).held_eq)
  nonneg := by
    rw [h.budget]
    refine Finset.sum_nonneg (fun c _ => ?_)
    rw [held]
    split
    · exact Int.natCast_nonneg _
    · exact Int.le_refl _
  bound := h.bound
  few := h.few
  segmented c stream d hrequest hp := by
    constructor
    · rcases (h.valid c).outcome with hnone | ⟨d', stream', hd, hrequest', hp'⟩
      · exact .inl hnone
      · rw [hd, hrequest'.unique hrequest (hp'.trans hp) (List.prefix_refl _)]
        exact .inr rfl
    · rintro - rfl
      exact (h.valid c).complete hrequest

end Guarantees

theorem intake_gate {ι : Type} [DecidableEq ι] (cfg : Config) (events : List (Event ι)) :
    IntakeHolds cfg (isOwnHost cfg.listeningPort) (events.foldl (Server.step cfg) {}) :=
  (sound_init.run events).intakeHolds

def emptyHost : QByteArray := latin1 "GET / HTTP/1.1\r\nHost:\r\n\r\n"

/-- It is let in although its host is neither absent nor this machine. -/
theorem empty_host_let_in : ¬ IntakeHolds {} (isLoopbackHost 17777)
    ([.newConnection 0, .readyRead 0 emptyHost false].foldl (Server.step {})
      ({} : Server Nat)) := by
  intro h
  have hcall : (⟨utf16 "GET", utf16 "/", []⟩ : Dispatch) ∈
      (([.newConnection 0, .readyRead 0 emptyHost false].foldl (Server.step {})
        ({} : Server Nat)).sockets 0).dispatched := by
    decide
  obtain ⟨n, hi, hgate, -, -⟩ := h.gated 0 _ hcall
  have hn : indexOf blank emptyHost = some 21 := by decide
  have hsame : n = 21 := Option.some.inj (hi.symm.trans hn)
  subst hsame
  rcases hgate.authorized with htoken | ⟨-, hhost, -⟩
  · exact htoken.1 rfl
  · have hfield : (latin1 "host", []) ∈ headerFields (emptyHost.take 21) := by decide
    exact absurd (hhost _ hfield rfl) (by decide)

end Nullock.ControlServer
