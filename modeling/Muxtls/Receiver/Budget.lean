import Muxtls.Receiver.Accounting
import Muxtls.Receiver.Delivery
import Muxtls.Receiver.Refine
import Muxtls.Sender.OpenFirst

namespace Muxtls
namespace Inbox

theorem counted_closed (b : Inbox) (id len : Nat) :
    (b.counted id len).view (fun _ sem => sem.closed) = b.view fun _ sem => sem.closed :=
  view_same b id (b.counted id len) _ rfl rfl rfl

/-- Taking a payload in closes no budget. -/
theorem acceptData_closed (b : Inbox) (l : Limits) (id : Nat) (payload : Bytes) (fin : Bool) (b' : Inbox)
    (h : b.acceptData l id payload fin = (b', .ok ())) :
    b'.view (fun _ sem => sem.closed) = b.view fun _ sem => sem.closed := by
  obtain ⟨-, -, b₁, hb₁, rfl⟩ := b.acceptData_ok id l payload fin b' h
  have hlast : (if fin then b₁.markRecvTerminal id else b₁).view (fun _ sem => sem.closed) =
      b₁.view fun _ sem => sem.closed := by
    split_ifs
    · exact b₁.markRecvTerminal_view id
    · rfl
  refine hlast.trans ?_
  rcases hb₁ with ⟨-, rfl⟩ | ⟨hne, hp⟩
  · exact b.counted_closed id _
  · rcases pushInbound_ok _ id l payload b₁ hne hp with
      ⟨-, rfl⟩ | ⟨-, -, conn, stream, chunks, hconn, hstream, -, rfl⟩
    · exact b.counted_closed id _
    · obtain ⟨hc, hc', -⟩ := Semaphore.tryAcquire_eq_some _ _ _ hconn
      obtain ⟨hs, hs', -⟩ := Semaphore.tryAcquire_eq_some _ _ _ hstream
      have hstored : ((b.counted id payload.length).stored id chunks conn stream).view (fun _ sem => sem.closed) =
          (b.counted id payload.length).view fun _ sem => sem.closed :=
        view_same (b.counted id payload.length) id _ _ rfl (hc'.trans hc.symm) (hs'.trans hs.symm)
      exact hstored.trans (b.counted_closed id _)

theorem acceptData_error_closed (b : Inbox) (l : Limits) (id : Nat) (payload : Bytes) (fin : Bool) (b' : Inbox)
    (error : Error) (h : b.acceptData l id payload fin = (b', .error error)) :
    b'.view (fun _ sem => sem.closed) = b.view fun _ sem => sem.closed := by
  rcases b.acceptData_error id l payload fin b' error h with ⟨w, -, rfl⟩ | rfl
  · funext key
    cases key <;> rfl
  · exact b.counted_closed id _

theorem receiveBoth_ok (b b' : Inbox) (id len : Nat) (h : b.receiveBoth id len = (b', .ok ())) :
    b' = b.counted id len ∧ b.receiveWindow.received + len ≤ b.receiveWindow.advertised ∧
      (b.recv id).receiveWindow.received + len ≤ (b.recv id).receiveWindow.advertised := by
  rcases b.receiveBoth_cases id len with ⟨hr, hc, hs⟩ | ⟨w, error, -, hr⟩
  · rw [hr] at h
    cases h
    exact ⟨rfl, hc, hs⟩
  · rw [hr] at h
    cases h

variable {l : Limits} {i : Ids} {b b' : Inbox} {id : Nat}

/-- What the two windows admit the two budgets admit. -/
theorem Exact.acquires (h : b.Exact l i) (hl : l.Valid) (hid : i.Opened id) (len : Nat)
    (hd : (b.recv id).recvDiscarded = false) (hconn : b.inboundConnBytes.closed = false)
    (hstream : (b.recv id).inboundStreamBytes.closed = false) (hr : b.receiveBoth id len = (b', .ok ())) :
    ∃ conn stream, b'.inboundConnBytes.tryAcquire (len % 2 ^ 32) = some conn ∧
      (b'.recv id).inboundStreamBytes.tryAcquire (len % 2 ^ 32) = some stream := by
  obtain ⟨rfl, hc, hs⟩ := receiveBoth_ok b b' id len hr
  obtain ⟨hlt, hcp, hsp⟩ := h.owes.fits hl hid len hc hs
  have hsem : ((b.counted id len).recv id).inboundStreamBytes = (b.recv id).inboundStreamBytes := by
    simp [counted]
  rw [Nat.mod_eq_of_lt hlt, hsem]
  exact ⟨_, _, if_pos ⟨hconn, hcp⟩, if_pos ⟨hstream, hsp hd⟩⟩

/-- A frame within both windows of an open direction is taken in. -/
theorem Exact.accepts (h : b.Exact l i) (hl : l.Valid) (hid : i.Opened id) (l' : Limits) (payload : Bytes)
    (fin : Bool) (hfin : (b.recv id).inbound.finReceived = false) (hconn : b.inboundConnBytes.closed = false)
    (hstream : (b.recv id).inboundStreamBytes.closed = false)
    (hr : b.receiveBoth id payload.length = (b', .ok ())) :
    (b.acceptData l' id payload fin).2 = .ok () := by
  have hacq := fun hd => h.acquires hl hid payload.length hd hconn hstream hr
  unfold acceptData
  rw [hr]
  simp only
  by_cases he : payload = []
  · rw [if_pos (List.isEmpty_iff.mpr he)]
  · rw [if_neg (fun hc => he (List.isEmpty_iff.mp hc))]
    have hpush : (b'.pushInbound l' id payload).2 = .ok () := by
      obtain ⟨rfl, -, -⟩ := receiveBoth_ok b b' id payload.length hr
      have hrecv : ((b.counted id payload.length).recv id).recvDiscarded = (b.recv id).recvDiscarded ∧
          ((b.counted id payload.length).recv id).inbound = (b.recv id).inbound := by
        simp [counted]
      unfold pushInbound
      simp only
      by_cases hd : (b.recv id).recvDiscarded = true
      · rw [if_pos (hrecv.1.trans hd)]
      · rw [if_neg (fun hx => hd (hrecv.1.symm.trans hx))]
        obtain ⟨conn, stream, hc, hs⟩ := hacq (Bool.eq_false_iff.mpr hd)
        have hlen : payload.length ≠ 0 := fun hz => he (List.length_eq_zero_iff.mp hz)
        obtain ⟨chunks, happ⟩ := appendPayload_ok (pageSize l') payload (payload.length % 2 ^ 32)
          (payload.length % 2 ^ 32) (b.recv id).inbound.chunks fun c hm =>
            (h.chunks id c (List.mem_append_right _ hm)).isSome
        simp only [acquirePermit, if_neg hlen, hc, hs, hrecv.2, hfin, Bool.false_eq_true, if_false, happ]
    cases hp : b'.pushInbound l' id payload with
    | mk b₁ r =>
      rw [hp] at hpush
      simp only at hpush
      subst hpush
      rfl

end Inbox

namespace Receiver

/-- A budget is closed by `mark_closed` only. -/
structure Unlocked (v : Receiver) : Prop where
  conn : v.shut = false → v.inbox.inboundConnBytes.closed = false
  stream : v.shut = false → ∀ id, (v.inbox.recv id).inboundStreamBytes.closed = false

variable {l : Limits} {isClient : Bool} {v v' : Receiver} {log evs : List Event}

theorem closed_steady : Inbox.Steady fun (_ : ReceiveWindow) sem => sem.closed := fun _ _ _ _ => rfl

theorem Unlocked.keep (h : v.Unlocked) (hs : v'.shut = v.shut)
    (hv : v'.inbox.view (fun _ sem => sem.closed) = v.inbox.view fun _ sem => sem.closed) : v'.Unlocked :=
  ⟨fun hn => (congrFun hv none).trans (h.conn (hs ▸ hn)),
    fun hn id => (congrFun hv (some id)).trans (h.stream (hs ▸ hn) id)⟩

theorem Unlocked.create (h : v.Unlocked) (l : Limits) (id : Nat) (v' : Receiver) (hs : v'.shut = v.shut)
    (hb : v'.inbox = v.inbox.create l id) : v'.Unlocked := by
  refine ⟨?_, ?_⟩
  · intro hn
    rw [hb]
    exact h.conn (hs ▸ hn)
  · intro hn j
    rw [hb]
    by_cases hj : j = id
    · subst hj
      simp [Inbox.create]
    · simp only [Inbox.create, Function.update_of_ne hj]
      exact h.stream (hs ▸ hn) j

theorem unlocked_step (h : v.Unlocked) (hs : RecvStep v evs v') : v'.Unlocked := by
  cases hs with
  | quiet => exact h.keep rfl rfl
  | reject => exact h.keep rfl rfl
  | shut =>
    refine ⟨?_, ?_⟩
    · intro hn
      cases hn
    · intro hn
      cases hn
  | openLocal hid => exact h.create _ _ _ rfl rfl
  | openRemote _ done hid hlog => exact h.create _ _ _ rfl rfl
  | accept id hw hid => exact h.keep rfl rfl
  | drop id hh => exact h.keep rfl (v.inbox.dropRemainder_view id closed_steady)
  | discard id hh => exact h.keep rfl (v.inbox.discardInbound_view id closed_steady)
  | free id hh => exact h.keep rfl (v.inbox.clearChunks_view id closed_steady)
  | readWhole id hh hm => exact h.keep rfl (v.inbox.readWhole_view id closed_steady)
  | pollRead id room hh => exact h.keep rfl (v.inbox.pollRead_view id closed_steady room)
  | stream streamId fin payload inbox hd hm ht hacc =>
    exact h.keep rfl (v.inbox.acceptData_closed _ _ _ _ _ hacc)
  | refuse id fin payload inbox error hm hacc =>
    exact h.keep rfl (v.inbox.acceptData_error_closed _ _ _ _ _ _ hacc)
  | reset streamId errorCode hd hm ht =>
    exact h.keep rfl ((Inbox.markRecvTerminal_view _ _).trans (Inbox.markReset_view _ _ closed_steady _))
  | grantConn maximum hu => exact h.keep rfl rfl
  | grantStream id maximum hm ht hd hu => exact h.keep rfl (Inbox.view_same _ id _ _ rfl rfl rfl)
  | retire id ht => exact h.keep rfl rfl

theorem reach_unlocked (h : (machine l isClient).Reach v log) : v.Unlocked := by
  refine h.invariant (fun v _ => v.Unlocked) ?_ fun _ _ _ _ _ hu hs => unlocked_step hu hs
  intro v (hi : v = _)
  subst hi
  exact ⟨fun _ => rfl, fun _ _ => rfl⟩

end Receiver

namespace Endpoint

theorem reach_valid {l : Limits} {isClient : Bool} {e : Endpoint} {log : List Event}
    (h : (machine l isClient).Reach e log) : l.Valid := by
  refine h.invariant (fun _ _ => l.Valid) ?_ fun _ _ _ _ _ hv _ => hv
  intro e he
  exact (Limits.validate_ok_iff l).mp (connect_ok he).1

/-- In every state of an open connection that has rejected no frame, whatever its peer sent: what the
connection has received and not consumed is what its streams hold, and so are the permits it has
given out; the same is true of each stream that is not discarded, and the permits of each chunk are
its length. So no stream and no connection holds more than its limit, and a frame within both
windows finds its permits. -/
theorem inbound_accounting_exact (l : Limits) (isClient : Bool) (e : Endpoint) (log : List Event)
    (h : (machine l isClient).Reach e log) (hopen : e.shared.closed = false)
    (hclean : ∀ error, .rejected error ∉ log) :
    let b := e.shared.inbox
    let i := e.shared.ids
    let total := ∑ id ∈ Finset.range i.bound, b.held id
    (∀ id, ¬ i.Opened id → b.held id = 0) ∧
      b.receiveWindow.consumed + total = b.receiveWindow.received ∧
      b.inboundConnBytes.permits + total = l.maxInboundConnectionBytes ∧
      (∀ id, i.Opened id → (b.recv id).recvDiscarded = false →
        (b.recv id).receiveWindow.consumed + b.held id = (b.recv id).receiveWindow.received ∧
          (b.recv id).inboundStreamBytes.permits + b.held id = l.maxInboundStreamBytes) ∧
      (∀ id, ∀ c ∈ (b.dir id).chunks,
        c.connPermit = some c.data.bytes.length ∧ c.streamPermit = some c.data.bytes.length) ∧
      total ≤ l.maxInboundConnectionBytes ∧ (∀ id, b.held id ≤ l.maxInboundStreamBytes) ∧
      ∀ id b' payload, i.Opened id → b.receiveBoth id payload.length = (b', .ok ()) →
        ((b.recv id).recvDiscarded = false →
          ∃ conn stream, b'.inboundConnBytes.tryAcquire (payload.length % 2 ^ 32) = some conn ∧
            (b'.recv id).inboundStreamBytes.tryAcquire (payload.length % 2 ^ 32) = some stream) ∧
        ((b.recv id).recvTerminal = false → ∀ fin, (b.acceptData l id payload fin).2 = .ok ()) := by
  have hl := reach_valid h
  have hr := reach_receiver h
  have hx : e.shared.inbox.Exact l e.shared.ids := Receiver.reach_exact hl hr hclean
  have hshut : e.shared.cleanupStarted = false := by
    by_contra hs
    have hc : e.shared.closed = true := Ledger.reach_shut (reach_ledger h) (Bool.eq_true_of_not_eq_false hs)
    rw [hopen] at hc
    cases hc
  have hlock := Receiver.reach_unlocked hr
  have hconn := hlock.conn hshut
  have hstream := hlock.stream hshut
  have hfin : ∀ id, (e.shared.inbox.recv id).inbound.finReceived = (e.shared.inbox.recv id).recvTerminal :=
    fun id => (RecvSide.reach_inv (Receiver.reach_side hr id)).fin
  intro b i total
  have hpermits := hx.owes.conn_permits
  refine ⟨hx.owes.unheld, hx.owes.conn_held, hpermits, ?_, ?_, ?_, ?_, ?_⟩
  · exact fun id hid hd => ⟨hx.owes.held_eq id hd, hx.owes.permits id hid⟩
  · exact fun id c hc => ⟨(hx.chunks id c hc).conn, (hx.chunks id c hc).stream⟩
  · exact le_of_le_of_eq (Nat.le_add_left _ _) hpermits
  · intro id
    by_cases hid : i.Opened id
    · exact le_of_le_of_eq (Nat.le_add_left _ _) (hx.owes.permits id hid)
    · rw [hx.owes.unheld id hid]
      exact Nat.zero_le _
  · intro id b' payload hid hboth
    refine ⟨fun hd => hx.acquires hl hid payload.length hd hconn (hstream id) hboth, fun ht fin => ?_⟩
    exact hx.accepts hl hid l payload fin ((hfin id).trans ht) hconn (hstream id) hboth

/-- One of three bytes is left after a partial read. -/
theorem inbound_accounting_exact_partial :
    ∃ e log, (machine smallLimits true).Reach e log ∧ e.shared.inbox.held 1 = 1 ∧
      (e.shared.inbox.recv 1).receiveWindow.consumed + 1 = (e.shared.inbox.recv 1).receiveWindow.received := by
  have hrun : (Machine.runList step { shared := .new smallLimits true }
      [.receive (settingsFrame smallLimits).wire, .receive (Frame.openStream (.expect 1)).wire, .accept,
        .receive (Frame.stream (.expect 1) false [1, 2, 3]).wire, .pollRead 1 2]).map
        (fun r => (r.2, r.1.shared.closed, r.1.shared.inbox.held 1, decide (r.1.shared.ids.Opened 1),
          (r.1.shared.inbox.recv 1).recvDiscarded)) =
      some ([.accepted (settingsFrame smallLimits), .accepted (.openStream (.expect 1)),
        .accepted (.stream (.expect 1) false [1, 2, 3]), .handed 1 [1, 2]], false, 1, true, false) := by decide
  have h0 : connect smallLimits true = .ok { shared := .new smallLimits true } := rfl
  obtain ⟨e, log, hr, hg⟩ := Machine.runList_reach (connect smallLimits true = .ok ·) h0 _ _ hrun
  simp only [Prod.mk.injEq, decide_eq_true_eq] at hg
  obtain ⟨hlog, hclosed, hheld, hid, hd⟩ := hg
  have hclean : ∀ error, .rejected error ∉ log := by
    rw [hlog]
    simp
  obtain ⟨-, -, -, hstream, -⟩ := inbound_accounting_exact smallLimits true e log hr hclosed hclean
  have hw := (hstream 1 hid hd).1
  rw [hheld] at hw
  exact ⟨e, log, hr, hheld, hw⟩

end Endpoint
end Muxtls
