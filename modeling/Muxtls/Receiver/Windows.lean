import Muxtls.Receiver.Basic
import Muxtls.Receiver.View
import Muxtls.Sender.Credit

namespace Muxtls
namespace Inbox

/-- The two totals of each window that a peer can see: what it sent and what it may send. -/
def totals (b : Inbox) : Option Nat → Nat × Nat := b.view fun w _ => (w.received, w.advertised)

theorem totals_steady : Steady fun w (_ : Semaphore) => (w.received, w.advertised) := by
  intro w sem count permits
  simp

variable (b : Inbox) (id : Nat)

/-- What an accepted payload does to the totals. -/
theorem acceptData_totals (l : Limits) (payload : Bytes) (fin : Bool) (b' : Inbox)
    (h : b.acceptData l id payload fin = (b', .ok ())) (key : Option Nat) :
    b'.totals key =
      if key = none ∨ key = some id then ((b.totals key).1 + payload.length, (b.totals key).2)
      else b.totals key := by
  have hcount : (b.counted id payload.length).totals key =
      if key = none ∨ key = some id then ((b.totals key).1 + payload.length, (b.totals key).2)
      else b.totals key := by
    cases key with
    | none => rfl
    | some j =>
      by_cases hj : j = id
      · subst hj
        simp [totals, view, window, counted]
      · simp [totals, view, window, counted, hj]
  obtain ⟨-, -, b₁, hb₁, rfl⟩ := b.acceptData_ok id l payload fin b' h
  have hlast : (if fin then b₁.markRecvTerminal id else b₁).totals = b₁.totals := by
    split_ifs
    · exact b₁.markRecvTerminal_view id
    · rfl
  rw [hlast, ← hcount]
  rcases hb₁ with ⟨-, rfl⟩ | ⟨hne, hp⟩
  · rfl
  · rcases pushInbound_ok _ id l payload b₁ hne hp with ⟨-, rfl⟩ | ⟨-, -, conn, stream, chunks, -, -, -, rfl⟩
    · cases key with
      | none => simp [totals, view, window]
      | some j => rfl
    · exact congrFun (view_same (b.counted id payload.length) id
        ((b.counted id payload.length).stored id chunks conn stream) _ rfl rfl rfl) key

theorem create_totals (l : Limits) (key : Option Nat) :
    (b.create l id).totals key = if key = some id then (0, l.maxInboundStreamBytes) else b.totals key := by
  cases key with
  | none => rfl
  | some j =>
    by_cases hj : j = id
    · subst hj
      simp [totals, view, window, create, ReceiveWindow.new]
    · simp [totals, view, window, create, hj]

theorem grantConn_totals (maximum : VarInt) (h : b.receiveWindow.update.2 = some maximum) :
    (∀ key, key ≠ none → b.grantConn.totals key = b.totals key) ∧
      b.grantConn.totals none = ((b.totals none).1, maximum.intoInner) ∧
      (b.totals none).2 < maximum.intoInner := by
  refine ⟨?_, ?_⟩
  · intro key hk
    cases key with
    | none => exact absurd rfl hk
    | some j => rfl
  · rcases b.receiveWindow.update_cases with ⟨-, hu⟩ | ⟨-, hlt, m, hm, hu⟩
    · rw [hu] at h
      cases h
    · rw [hu] at h
      cases h
      simp only [totals, view, window, grantConn, hu]
      exact ⟨trivial, hm ▸ hlt⟩

theorem grantStream_totals (maximum : VarInt) (h : (b.recv id).receiveWindow.update.2 = some maximum) :
    (∀ key, key ≠ some id → (b.grantStream id).totals key = b.totals key) ∧
      (b.grantStream id).totals (some id) = ((b.totals (some id)).1, maximum.intoInner) ∧
      (b.totals (some id)).2 < maximum.intoInner := by
  refine ⟨?_, ?_⟩
  · intro key hk
    cases key with
    | none => rfl
    | some j =>
      have hj : j ≠ id := fun he => hk (he ▸ rfl)
      simp [totals, view, window, grantStream, hj]
  · rcases (b.recv id).receiveWindow.update_cases with ⟨-, hu⟩ | ⟨-, hlt, m, hm, hu⟩
    · rw [hu] at h
      cases h
    · rw [hu] at h
      cases h
      simp only [totals, view, window, grantStream, hu, Function.update_self]
      exact ⟨trivial, hm ▸ hlt⟩

theorem acceptData_error_advertised (l : Limits) (payload : Bytes) (fin : Bool) (b' : Inbox) (error : Error)
    (h : b.acceptData l id payload fin = (b', .error error)) (key : Option Nat) :
    (b'.totals key).2 = (b.totals key).2 := by
  rcases b.acceptData_error id l payload fin b' error h with ⟨w, hw, rfl⟩ | rfl
  · cases key with
    | none => exact hw
    | some j => rfl
  · cases key with
    | none => rfl
    | some j =>
      by_cases hj : j = id
      · subst hj
        simp [totals, view, window, counted]
      · simp [totals, view, window, counted, hj]

end Inbox

/-- What a frame grants to the connection or to a stream, apart from SETTINGS. -/
def Frame.creditOf : Option Nat → Frame → Nat
  | none, .maxData maximum => maximum.intoInner
  | some id, f => f.streamGrant id
  | none, _ => 0

/-- Whether the payload of a frame counts for the connection or for a stream. -/
def Frame.carries : Option Nat → Frame → Bool
  | none, _ => true
  | some id, f => f.sendsOn id

/-- The first limit of the connection or of a stream. -/
def Limits.initial (l : Limits) : Option Nat → Nat
  | none => l.maxInboundConnectionBytes
  | some _ => l.maxInboundStreamBytes

theorem Frame.creditOf_eq_zero (f : Frame) (h : f.isCredit = false) (key : Option Nat) : f.creditOf key = 0 := by
  cases key <;> cases f <;> first | rfl | cases h

namespace Receiver

/-- The connection, or a stream that is open. -/
def Knows (v : Receiver) : Option Nat → Prop
  | none => True
  | some id => v.ids.Opened id

/-- The totals of each window follow the log: a limit is the largest one granted, and until a frame
is rejected the received bytes are those of the accepted frames. -/
structure Windows (l : Limits) (v : Receiver) (log : List Event) : Prop where
  rejected : ∀ error, .rejected error ∈ log → v.done = true
  advertised : ∀ key, v.Knows key →
    (v.inbox.totals key).2 = max (l.initial key) (granted (Frame.creditOf key) (emitted log))
  received : (∀ error, .rejected error ∉ log) → ∀ key, v.Knows key →
    (v.inbox.totals key).1 = (frameBytes ((accepted log).filter (Frame.carries key))).length
  unknown : ∀ key, ¬ v.Knows key → granted (Frame.creditOf key) (emitted log) = 0 ∧
    (accepted log).filter (Frame.carries key) = []

variable {l : Limits} {isClient : Bool} {v v' : Receiver} {log evs : List Event}

/-- Events that move no total: no credit is emitted, and no payload is accepted. -/
structure Still (v : Receiver) (evs : List Event) : Prop where
  emitted : ∀ f ∈ emitted evs, f.isCredit = false
  accepted : ∀ f ∈ accepted evs, f.payload = [] ∧ ∀ id, ¬ v.ids.Opened id → f.sendsOn id = false

theorem Still.emitted_zero (h : v.Still evs) (log : List Event) (key : Option Nat) :
    granted (Frame.creditOf key) (Muxtls.emitted (log ++ evs)) =
      granted (Frame.creditOf key) (Muxtls.emitted log) := by
  rw [emitted_append]
  exact granted_append_zero _ _ _ fun f hf => f.creditOf_eq_zero (h.emitted f hf) key

theorem Still.accepted_bytes (h : v.Still evs) (log : List Event) (key : Option Nat) :
    frameBytes ((Muxtls.accepted (log ++ evs)).filter (Frame.carries key)) =
      frameBytes ((Muxtls.accepted log).filter (Frame.carries key)) := by
  rw [accepted_append, List.filter_append, frameBytes_append]
  have hnil := Sender.frameBytes_bare ((Muxtls.accepted evs).filter (Frame.carries key))
    fun f hf => (h.accepted f (List.mem_filter.mp hf).1).1
  rw [hnil, List.append_nil]

theorem Still.accepted_unknown (h : v.Still evs) (log : List Event) (key : Option Nat) (hk : ¬ v.Knows key) :
    (Muxtls.accepted (log ++ evs)).filter (Frame.carries key) =
      (Muxtls.accepted log).filter (Frame.carries key) := by
  have hnil : (Muxtls.accepted evs).filter (Frame.carries key) = [] := by
    rw [List.filter_eq_nil_iff]
    intro f hf
    cases key with
    | none => exact absurd trivial hk
    | some id =>
      simp only [Frame.carries, (h.accepted f hf).2 id hk]
      simp
  rw [accepted_append, List.filter_append, hnil, List.append_nil]

theorem still_silent (v : Receiver) (h : ∀ e ∈ evs, e.Silent) : v.Still evs := by
  refine ⟨?_, ?_⟩
  · intro f hf
    obtain ⟨e, he, hef⟩ := List.mem_filterMap.mp hf
    have hq := h e he
    cases e with
    | emitted g => cases hef; exact hq
    | _ => cases hef
  · intro f hf
    obtain ⟨e, he, hef⟩ := List.mem_filterMap.mp hf
    have hq := h e he
    cases e with
    | accepted g =>
      cases hef
      cases f <;> first | exact ⟨rfl, fun _ _ => rfl⟩ | exact hq.elim
    | _ => cases hef

theorem still_of_none (v : Receiver) (he : emitted evs = []) (ha : accepted evs = []) : v.Still evs := by
  refine ⟨?_, ?_⟩
  · intro f hf
    rw [he] at hf
    cases hf
  · intro f hf
    rw [ha] at hf
    cases hf

theorem readEvents_still (v : Receiver) (id : Nat) (r : Inbox.ReadOutcome) : v.Still (Shared.readEvents id r) := by
  cases r <;> exact still_of_none v rfl rfl

/-- A step whose events move no total. -/
theorem Windows.keep (h : v.Windows l log) (hev : v.Still evs) (hids : v'.ids = v.ids)
    (hadv : ∀ key, (v'.inbox.totals key).2 = (v.inbox.totals key).2)
    (hrecv : (∀ error, .rejected error ∉ evs) → ∀ key, (v'.inbox.totals key).1 = (v.inbox.totals key).1)
    (hdone : v.done = true → v'.done = true) (hrej : ∀ error, .rejected error ∈ evs → v'.done = true) :
    v'.Windows l (log ++ evs) := by
  have hknows : ∀ key, v'.Knows key ↔ v.Knows key := by
    intro key
    cases key with
    | none => exact Iff.rfl
    | some id => simp only [Knows, hids]
  refine ⟨?_, ?_, ?_, ?_⟩
  · intro error he
    rcases List.mem_append.mp he with he | he
    · exact hdone (h.rejected error he)
    · exact hrej error he
  · intro key hk
    rw [hadv, hev.emitted_zero]
    exact h.advertised key ((hknows key).mp hk)
  · intro hn key hk
    rw [hev.accepted_bytes, hrecv fun error he => hn error (List.mem_append_right _ he)]
    exact h.received (fun error he => hn error (List.mem_append_left _ he)) key ((hknows key).mp hk)
  · intro key hk
    have hk' := fun hkn => hk ((hknows key).mpr hkn)
    rw [hev.emitted_zero, hev.accepted_unknown log key hk']
    exact h.unknown key hk'

theorem Windows.same (h : v.Windows l log) (hev : v.Still evs) (hids : v'.ids = v.ids)
    (htot : v'.inbox.totals = v.inbox.totals) (hdone : v.done = true → v'.done = true)
    (hrej : ∀ error, .rejected error ∈ evs → v'.done = true) : v'.Windows l (log ++ evs) :=
  h.keep hev hids (fun key => by rw [htot]) (fun _ key => by rw [htot]) hdone hrej

/-- A new stream starts with its first limit and no bytes. -/
theorem Windows.create (hv : v.WF l) (h : v.Windows l log) (hev : v.Still evs) {ids : Ids} {id : Nat}
    (ho : ∀ j, ids.Opened j ↔ v.ids.Opened j ∨ j = id) (hn : ¬ v.ids.Opened id) (holder : Holder) (done : Bool)
    (hdone : v.done = true → done = true) (hrej : ∀ error, .rejected error ∈ evs → done = true) :
    Windows l { v.create ids id holder with done := done } (log ++ evs) := by
  have htot : ∀ key, ({ v.create ids id holder with done := done } : Receiver).inbox.totals key =
      if key = some id then (0, l.maxInboundStreamBytes) else v.inbox.totals key := by
    intro key
    rw [← hv.limits]
    exact v.inbox.create_totals id v.limits key
  have hknows : ∀ key, key ≠ some id → ({ v.create ids id holder with done := done } : Receiver).Knows key →
      v.Knows key := by
    intro key hne hk
    cases key with
    | none => trivial
    | some j =>
      rcases (ho j).mp hk with hj | rfl
      · exact hj
      · exact absurd rfl hne
  have hnew : ¬ v.Knows (some id) := hn
  obtain ⟨hgrant, htaken⟩ := h.unknown (some id) hnew
  refine ⟨?_, ?_, ?_, ?_⟩
  · intro error he
    rcases List.mem_append.mp he with he | he
    · exact hdone (h.rejected error he)
    · exact hrej error he
  · intro key hk
    rw [hev.emitted_zero]
    by_cases hkey : key = some id
    · subst hkey
      rw [hgrant]
      rw [htot, if_pos rfl]
      exact (Nat.max_zero _).symm
    · rw [htot, if_neg hkey]
      exact h.advertised key (hknows key hkey hk)
  · intro hnone key hk
    rw [hev.accepted_bytes]
    by_cases hkey : key = some id
    · subst hkey
      rw [htaken]
      rw [htot, if_pos rfl]
      rfl
    · rw [htot, if_neg hkey]
      exact h.received (fun error he => hnone error (List.mem_append_left _ he)) key (hknows key hkey hk)
  · intro key hk
    have hk' : ¬ v.Knows key := by
      intro hold
      cases key with
      | none => exact hk trivial
      | some j => exact hk ((ho j).mpr (.inl hold))
    rw [hev.emitted_zero, hev.accepted_unknown log key hk']
    exact h.unknown key hk'

theorem Windows.stream (hv : v.WF l) (h : v.Windows l log) (streamId : VarInt) (fin : Bool) (payload : Bytes)
    (inbox : Inbox) (hs : streamId.intoInner ∈ v.streams)
    (hacc : v.inbox.acceptData v.limits streamId.intoInner payload fin = (inbox, .ok ())) :
    Windows l { v with inbox := inbox } (log ++ [.accepted (.stream streamId fin payload)]) := by
  have htot := fun key => v.inbox.acceptData_totals streamId.intoInner v.limits payload fin inbox hacc key
  have hemit : emitted (log ++ [.accepted (.stream streamId fin payload)]) = emitted log := by
    rw [emitted_append]
    exact List.append_nil _
  have haccept : accepted (log ++ [.accepted (.stream streamId fin payload)]) =
      accepted log ++ [.stream streamId fin payload] := accepted_append _ _
  have hcarry : ∀ key, (Frame.stream streamId fin payload).carries key = true ↔
      key = none ∨ key = some streamId.intoInner := by
    intro key
    cases key with
    | none => simp [Frame.carries]
    | some j =>
      simp only [Frame.carries, Frame.sendsOn, beq_iff_eq, reduceCtorEq, false_or, Option.some_inj]
      exact eq_comm
  refine ⟨?_, ?_, ?_, ?_⟩
  · intro error he
    rcases List.mem_append.mp he with he | he
    · exact h.rejected error he
    · cases List.mem_singleton.mp he
  · intro key hk
    rw [hemit, htot]
    split_ifs
    · exact h.advertised key hk
    · exact h.advertised key hk
  · intro hn key hk
    have hr := h.received (fun error he => hn error (List.mem_append_left _ he)) key hk
    rw [haccept, List.filter_append, frameBytes_append, List.length_append, htot]
    by_cases hc : key = none ∨ key = some streamId.intoInner
    · rw [if_pos hc, List.filter_singleton, (hcarry key).mpr hc]
      simp only [hr, cond_true, frameBytes_singleton, Frame.payload]
    · have hf : (Frame.stream streamId fin payload).carries key = false :=
        Bool.eq_false_iff.mpr fun hx => hc ((hcarry key).mp hx)
      rw [if_neg hc, List.filter_singleton, hf, hr]
      rfl
  · intro key hk
    obtain ⟨hg, ha⟩ := h.unknown key hk
    have hc : ¬ (key = none ∨ key = some streamId.intoInner) := by
      rintro (rfl | rfl)
      · exact hk trivial
      · exact hk (hv.streams _ hs)
    have hf : (Frame.stream streamId fin payload).carries key = false :=
      Bool.eq_false_iff.mpr fun hx => hc ((hcarry key).mp hx)
    rw [hemit, haccept, List.filter_append, ha, List.filter_singleton, hf]
    exact ⟨hg, rfl⟩

theorem Windows.grant (h : v.Windows l log) (f : Frame) (b : Inbox) (key : Option Nat) (hk : v.Knows key)
    (hother : ∀ key', key' ≠ key → b.totals key' = v.inbox.totals key' ∧ f.creditOf key' = 0)
    (hself : (b.totals key).1 = (v.inbox.totals key).1 ∧ (b.totals key).2 = f.creditOf key ∧
      (v.inbox.totals key).2 ≤ f.creditOf key) :
    Windows l { v with inbox := b } (log ++ [.emitted f]) := by
  have hemit : emitted (log ++ [.emitted f]) = emitted log ++ [f] := emitted_append _ _
  have haccept : accepted (log ++ [.emitted f]) = accepted log := by
    rw [accepted_append]
    exact List.append_nil _
  refine ⟨?_, ?_, ?_, ?_⟩
  · intro error he
    rcases List.mem_append.mp he with he | he
    · exact h.rejected error he
    · cases List.mem_singleton.mp he
  · intro key' hk'
    have ha := h.advertised key' hk'
    rw [hemit, granted_append_singleton]
    by_cases hkey : key' = key
    · subst hkey
      obtain ⟨-, hlim, hle⟩ := hself
      simp only
      omega
    · obtain ⟨ht, hz⟩ := hother key' hkey
      simp only [ht, ha, hz, Nat.max_zero]
  · intro hn key' hk'
    have hr := h.received (fun error he => hn error (List.mem_append_left _ he)) key' hk'
    rw [haccept, ← hr]
    by_cases hkey : key' = key
    · rw [hkey]
      exact hself.1
    · exact congrArg Prod.fst (hother key' hkey).1
  · intro key' hk'
    have hkey : key' ≠ key := fun he => hk' (he ▸ hk)
    rw [hemit, granted_append_singleton, haccept, (hother key' hkey).2, Nat.max_zero]
    exact h.unknown key' hk'

theorem windows_step (hv : v.WF l) (h : v.Windows l log) (hs : RecvStep v evs v') : v'.Windows l (log ++ evs) := by
  have hnone : v.Still [] := still_of_none v rfl rfl
  have hclean : ∀ evs : List Event, (∀ e ∈ evs, e.Silent) → ∀ error, .rejected error ∉ evs :=
    fun evs hl error he => hl _ he
  have hrej : ∀ done : Bool, ∀ error, Event.rejected error ∈ ([] : List Event) → done = true := by simp
  have hread : ∀ id r error, Event.rejected error ∈ Shared.readEvents id r → v.done = true := by
    intro id r error he
    cases r <;> simp [Shared.readEvents] at he
  cases hs with
  | quiet _ done hlog hd =>
    exact h.same (still_silent v hlog) rfl rfl hd fun error he => absurd he (hclean evs hlog error)
  | reject error => exact h.same (still_of_none v rfl rfl) rfl rfl (fun _ => rfl) fun _ _ => rfl
  | shut _ done hlog hd =>
    exact h.same (still_silent v hlog) rfl (v.inbox.shut_view (fun _ _ => rfl) v.streams) hd
      fun error he => absurd he (hclean evs hlog error)
  | openLocal hid =>
    exact h.create hv hnone (fun j => Ids.opened_takeLocal hv.ids j) (Ids.not_opened_nextLocal hv.ids) .held
      v.done (fun hd => hd) (hrej _)
  | openRemote _ done hid hlog =>
    refine h.create hv ?_ (fun j => Ids.opened_takeRemote hv.ids j) (Ids.not_opened_nextRemote hv.ids) .waiting
      done ?_ ?_
    · rcases hlog with ⟨rfl, -⟩ | ⟨⟨error, rfl⟩, -⟩
      · exact still_silent v (by simp [Event.Silent])
      · exact still_of_none v rfl rfl
    · rcases hlog with ⟨-, rfl⟩ | ⟨-, rfl⟩
      · exact fun hd => hd
      · exact fun _ => rfl
    · rcases hlog with ⟨rfl, -⟩ | ⟨-, rfl⟩
      · simp
      · exact fun _ _ => rfl
  | accept id hw hid => exact h.same hnone rfl rfl (fun hd => hd) (hrej _)
  | drop id hh => exact h.same hnone rfl (v.inbox.dropRemainder_view id Inbox.totals_steady) (fun hd => hd) (hrej _)
  | discard id hh => exact h.same hnone rfl (v.inbox.discardInbound_view id Inbox.totals_steady) (fun hd => hd) (hrej _)
  | free id hh => exact h.same hnone rfl (v.inbox.clearChunks_view id Inbox.totals_steady) (fun hd => hd) (hrej _)
  | readWhole id hh hm =>
    exact h.same (readEvents_still v id _) rfl
      (v.inbox.readWhole_view id Inbox.totals_steady) (fun hd => hd) (hread id _)
  | pollRead id room hh =>
    exact h.same (readEvents_still v id _) rfl
      (v.inbox.pollRead_view id Inbox.totals_steady room) (fun hd => hd) (hread id _)
  | stream streamId fin payload inbox hd hm ht hacc => exact h.stream hv streamId fin payload inbox hm hacc
  | refuse id fin payload inbox error hm hacc =>
    refine h.keep (still_of_none v rfl rfl) rfl ?_ ?_ (fun _ => rfl) fun _ _ => rfl
    · exact v.inbox.acceptData_error_advertised id v.limits payload fin inbox error hacc
    · exact fun hn => absurd List.mem_cons_self (hn error)
  | reset streamId errorCode hd hm ht =>
    refine h.same ?_ rfl ?_ (fun hd => hd) (by simp)
    · refine ⟨by simp [emitted, Event.emittedFrame], ?_⟩
      intro f hf
      rw [show f = .resetStream streamId errorCode from List.mem_singleton.mp hf]
      refine ⟨rfl, fun id hid => ?_⟩
      have hne : streamId.intoInner ≠ id := fun he => hid (he ▸ hv.streams _ hm)
      simpa [Frame.sendsOn] using hne
    · exact (Inbox.markRecvTerminal_view _ _).trans (Inbox.markReset_view _ _ Inbox.totals_steady _)
  | grantConn maximum hu =>
    obtain ⟨hother, hself, hlt⟩ := v.inbox.grantConn_totals maximum hu
    refine h.grant (.maxData maximum) _ none trivial ?_ ?_
    · intro key hk
      refine ⟨hother key hk, ?_⟩
      cases key with
      | none => exact absurd rfl hk
      | some j => rfl
    · rw [hself]
      exact ⟨rfl, rfl, le_of_lt hlt⟩
  | grantStream id maximum hm ht hd hu =>
    obtain ⟨hother, hself, hlt⟩ := v.inbox.grantStream_totals id maximum hu
    have hid : (VarInt.expect id).intoInner = id := VarInt.expect_intoInner _ ((hv.streams id hm).le hv.ids)
    have hcredit : (Frame.maxStreamData (.expect id) maximum).creditOf (some id) = maximum.intoInner := by
      simp [Frame.creditOf, Frame.streamGrant, hid]
    refine h.grant _ _ (some id) (hv.streams id hm) ?_ ?_
    · intro key hk
      refine ⟨hother key hk, ?_⟩
      cases key with
      | none => rfl
      | some j =>
        have hj : id ≠ j := fun he => hk (he ▸ rfl)
        simp [Frame.creditOf, Frame.streamGrant, hid, hj]
    · rw [hself, hcredit]
      exact ⟨rfl, rfl, le_of_lt hlt⟩
  | retire id ht => exact h.same hnone rfl rfl (fun hd => hd) (hrej _)

theorem reach_windows (h : (machine l isClient).Reach v log) : v.Windows l log := by
  refine h.invariant (Windows l) ?_ fun v log evs v' hr hw hs => windows_step (reach_wf hr) hw hs
  intro v (hi : v = _)
  subst hi
  refine ⟨by simp, ?_, ?_, ?_⟩
  · intro key hk
    cases key with
    | none => exact (Nat.max_zero _).symm
    | some id => exact absurd hk (Ids.not_opened_start isClient id)
  · intro _ key hk
    cases key with
    | none => rfl
    | some id => exact absurd hk (Ids.not_opened_start isClient id)
  · exact fun _ _ => ⟨rfl, rfl⟩

end Receiver
end Muxtls
