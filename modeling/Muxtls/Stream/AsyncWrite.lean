import Muxtls.Connection.Log
import Muxtls.Receiver.Budget
import Muxtls.Stream.Queue

namespace Muxtls
namespace AsyncWrite

/-- The acknowledged bytes. -/
def acked (log : List StreamEvent) : Bytes := (slices log).flatten

/-- The bytes enqueued for the stream. -/
def queued (id : Nat) (log : List StreamEvent) : Bytes := ((enqueued id log).map Prod.fst).flatten

/-- The last slice that was acknowledged; an empty buffer has no slice. -/
def lastSlice (log : List StreamEvent) : Option Bytes := ((slices log).filter (· ≠ [])).getLast?

/-- The FINs enqueued for the stream. -/
def fins (id : Nat) (log : List StreamEvent) : Nat := (enqueued id log).countP (·.2)

section Logs

variable (id : Nat) (log evs : List StreamEvent)

@[simp] theorem slices_append : slices (log ++ evs) = slices log ++ slices evs := List.filterMap_append

@[simp] theorem enqueued_append : enqueued id (log ++ evs) = enqueued id log ++ enqueued id evs :=
  List.filterMap_append

@[simp] theorem acked_append : acked (log ++ evs) = acked log ++ acked evs := by
  simp [acked]

@[simp] theorem queued_append : queued id (log ++ evs) = queued id log ++ queued id evs := by
  simp [queued]

theorem slices_endpoint (evs : List Event) : slices (evs.map .endpoint) = [] := by
  simp [slices]

/-- Steps elsewhere enqueue nothing for the stream. -/
theorem enqueued_endpoint {evs : List Event} (h : ∀ payload fin, .queued id payload fin ∉ evs) :
    enqueued id (evs.map .endpoint) = [] := by
  unfold enqueued
  rw [List.filterMap_map, List.filterMap_eq_nil_iff]
  intro ev hev
  cases ev with
  | queued j payload fin =>
    by_cases hj : j = id
    · exact absurd (hj ▸ hev) (h payload fin)
    · simp [hj]
  | _ => rfl

theorem Clean.mono {log evs : List StreamEvent} (h : Clean (log ++ evs)) : Clean log :=
  fun call error hm => h call error (List.mem_append_left _ hm)

end Logs

variable {l : Limits} {isClient : Bool} {id : Nat} {w w' : AsyncWrite} {log evs : List StreamEvent}

/-- The pending write of the stream is one of the two futures. -/
def Owns (w : AsyncWrite) (p : PendingWrite) : Prop :=
  p.fin = false ∧ w.stream.writeFut = some p.payload ∨
    p.fin = true ∧ p.payload = [] ∧ w.stream.shutdownFut = true

/-- No FIN is between its enqueue and the store of `send_terminal`. -/
def Still (id : Nat) (w : AsyncWrite) : Prop :=
  ∀ p, (w.endpoint.shared.send id).pending = some p → p.stage ≠ .enqueued

def mode (id : Nat) (w : AsyncWrite) : Nat := (w.endpoint.shared.life id).sendMode

/-- What is acknowledged and not enqueued: the chunk of the future, or else nothing, unless an error was
reported and the stream is dead. -/
def Account (id : Nat) (w : AsyncWrite) (log : List StreamEvent) : Prop :=
  match w.stream.writeFut with
  | some chunk => acked log = queued id log ++ chunk ∧ lastSlice log = some chunk
  | none => acked log = queued id log ∨ w.endpoint.shared.Dead id ∧ ¬ Clean log ∧
      ∃ missing, acked log = queued id log ++ missing ∧ lastSlice log = some missing

/-- What holds between the steps of a call. -/
structure Held (l : Limits) (isClient : Bool) (id : Nat) (w : AsyncWrite) (log : List StreamEvent) : Prop where
  run : ∃ elog, (Endpoint.machine l isClient).Reach w.endpoint elog
  handles : (w.endpoint.shared.life id).sendHandles ≠ 0
  mode : w.stream ≠ {} → w.mode id = 2
  chunk : ∀ chunk, w.stream.writeFut = some chunk →
    chunk ≠ [] ∧ w.endpoint.shared.checkChunk id chunk false = .ok ()
  exclusive : w.stream.shutdownFut = true ∨ w.stream.shutdownComplete = true → w.stream.writeFut = none
  pending : ∀ p, (w.endpoint.shared.send id).pending = some p → w.Owns p
  account : w.Account id log
  once : fins id log ≤ 1
  ended : 0 < fins id log → (w.endpoint.shared.send id).sendTerminal = true ∨
    ∃ p, (w.endpoint.shared.send id).pending = some p ∧ p.stage = .enqueued
  done : ∀ n, .returned .shutdown (some (.ok n)) ∈ log → w.stream.shutdownComplete = true

/-- The method may go on once no chunk is in its way. -/
def Ready (w : AsyncWrite) : PollCall → Prop
  | .write buf => buf ≠ [] ∧ w.stream.shutdownFut = false ∧ w.stream.shutdownComplete = false
  | .flush => True
  | .shutdown => w.stream.shutdownComplete = false

/-- The future that a call polls. -/
def Polls (w : AsyncWrite) (call : PollCall) (fin : Bool) : Prop :=
  if fin then call = .shutdown ∧ w.stream.shutdownFut = true ∧ w.stream.shutdownComplete = false
  else w.stream.writeFut.isSome ∧ w.Ready call

/-- What is known where the call stands. -/
def At (id : Nat) (w : AsyncWrite) (log : List StreamEvent) : Point → Prop
  | .idle => w.Still id
  | .checking buf => buf ≠ [] ∧ w.mode id = 2 ∧ w.Still id ∧
      (w.stream.writeFut = none → acked log ≠ queued id log → (w.endpoint.shared.send id).sendTerminal = true)
  | .selecting call fin => w.mode id = 2 ∧ w.Still id ∧ w.Polls call fin
  | .queueing call fin => w.mode id = 2 ∧ w.Polls call fin ∧ (fin = false → w.Still id)

structure Inv (l : Limits) (isClient : Bool) (id : Nat) (w : AsyncWrite) (log : List StreamEvent) : Prop
    extends Held l isClient id w log where
  here : w.At id log w.point

/-- What a step shows. -/
structure Shows (id : Nat) (w : AsyncWrite) (log evs : List StreamEvent) (w' : AsyncWrite) : Prop where
  flush : ∀ n, .returned .flush (some (.ok n)) ∈ evs → w'.stream.writeFut = none ∧ Clean evs
  failed : ∀ error, .resolved false (.error error) ∈ evs →
    (∃ call io, .returned call (some (.error io)) ∈ evs) ∧ (∀ message, error ≠ .limitExceeded message) ∧
      w'.endpoint.shared.Dead id
  fin : ∀ payload, .endpoint (.queued id payload true) ∈ evs →
    w.point = .queueing .shutdown true ∧ acked log = queued id log
  stays : w.stream.shutdownComplete = true → ∀ r, .returned .shutdown r ∈ evs → r = some (.ok 0)
  dead : w.endpoint.shared.Dead id → w'.endpoint.shared.Dead id ∧
    ∀ payload fin, .endpoint (.queued id payload fin) ∉ evs

theorem Held.opened (h : Held l isClient id w log) : w.endpoint.shared.ids.Opened id := by
  obtain ⟨elog, hr⟩ := h.run
  exact Endpoint.opened_of_handles (Ledger.reach_known (Endpoint.reach_ledger hr)) id h.handles

theorem Held.limits (h : Held l isClient id w log) : w.endpoint.shared.limits = l := by
  obtain ⟨elog, hr⟩ := h.run
  exact Ledger.reach_limits (Endpoint.reach_ledger hr)

theorem checkChunk_congr {s s' : Shared} (h : s'.limits = s.limits) (id : Nat) (payload : Bytes) (fin : Bool) :
    s'.checkChunk id payload fin = s.checkChunk id payload fin := by
  unfold Shared.checkChunk
  rw [h]

theorem Account.congr (h : w.Account id log) (hs : w'.stream.writeFut = w.stream.writeFut)
    (hd : w.endpoint.shared.Dead id → w'.endpoint.shared.Dead id) (ha : acked evs = []) (hq : queued id evs = [])
    (hl : (slices evs).filter (· ≠ []) = []) : w'.Account id (log ++ evs) := by
  have hlast : lastSlice (log ++ evs) = lastSlice log := by
    simp only [lastSlice, slices_append, List.filter_append, hl, List.append_nil]
  unfold Account at h ⊢
  rw [hs, acked_append, queued_append, ha, hq, List.append_nil, List.append_nil, hlast]
  split at h
  · exact h
  · exact h.imp_right fun ⟨hdead, hclean, hm⟩ => ⟨hd hdead, fun hc => hclean hc.mono, hm⟩

/-- The endpoint takes a step that enqueues nothing for the stream. -/
theorem Held.change {e : Endpoint} (h : Held l isClient id w log)
    (hrun : ∃ elog, (Endpoint.machine l isClient).Reach e elog) (hh : (e.shared.life id).sendHandles ≠ 0)
    (hm : (e.shared.life id).sendMode = w.mode id)
    (hp : ∀ p, (e.shared.send id).pending = some p → w.Owns p)
    (hd : w.endpoint.shared.Dead id → e.shared.Dead id)
    (hend : ((w.endpoint.shared.send id).sendTerminal = true ∨
        ∃ p, (w.endpoint.shared.send id).pending = some p ∧ p.stage = .enqueued) →
      (e.shared.send id).sendTerminal = true ∨ ∃ p, (e.shared.send id).pending = some p ∧ p.stage = .enqueued)
    {evs : List Event} (he : ∀ payload fin, .queued id payload fin ∉ evs) :
    Held l isClient id { w with endpoint := e } (log ++ evs.map .endpoint) := by
  have hs := slices_endpoint evs
  have hq := enqueued_endpoint id he
  have hfins : fins id (log ++ evs.map .endpoint) = fins id log := by
    simp [fins, hq]
  have hlim : e.shared.limits = w.endpoint.shared.limits := by
    obtain ⟨elog, hr⟩ := hrun
    exact (Ledger.reach_limits (Endpoint.reach_ledger hr)).trans h.limits.symm
  exact
    { run := hrun
      handles := hh
      mode := fun hn => hm.trans (h.mode hn)
      chunk := fun chunk hc =>
        ⟨(h.chunk chunk hc).1, (checkChunk_congr hlim id chunk false).trans (h.chunk chunk hc).2⟩
      exclusive := h.exclusive
      pending := hp
      account := h.account.congr rfl hd (by simp [acked, hs]) (by simp [queued, hq]) (by simp [hs])
      once := hfins ▸ h.once
      ended := fun hpos => hend (h.ended (hfins ▸ hpos))
      done := by
        intro n hn
        rcases List.mem_append.mp hn with hn | hn
        · exact h.done n hn
        · simp at hn }

/-- Steps elsewhere in the endpoint. -/
theorem Inv.other (h : Inv l isClient id w log) {a : Act} {e : Endpoint} {evs : List Event} (ha : a.own ≠ some id)
    (hs : w.endpoint.step a = some (e, evs)) :
    Inv l isClient id { w with endpoint := e } (log ++ evs.map .endpoint) ∧
      Shows id w log (evs.map .endpoint) { w with endpoint := e } := by
  obtain ⟨elog, hr⟩ := h.run
  have hpass := Endpoint.passes_of_step (Sender.reach_wf (Endpoint.reach_sender hr)) a hs
  have ho := h.opened
  have hp : (e.shared.send id).pending = (w.endpoint.shared.send id).pending := hpass.pending id ho ha
  have hm : (e.shared.life id).sendMode = w.mode id := hpass.mode id ho ha
  have ht := hpass.terminal id ho
  have hd : w.endpoint.shared.Dead id → e.shared.Dead id := Or.imp hpass.closed ht
  have hq : ∀ payload fin, Event.queued id payload fin ∉ evs := by
    intro payload fin hev
    have hlog : a = .enqueue id := Endpoint.step_logs a hs _ hev
    exact ha (by rw [hlog]; rfl)
  have hheld :=
    h.change ⟨_, hr.step ⟨a, hs⟩⟩ (hpass.handles id ho ha h.handles) hm (by rw [hp]; exact h.pending) hd
    (by rw [hp]; exact Or.imp_left ht) hq
  have hstill : w.Still id → Still id { w with endpoint := e } := by
    intro hst p hpe
    exact hst p (hp ▸ hpe)
  refine ⟨⟨hheld, ?_⟩, ?_⟩
  · have hat := h.here
    change At id { w with endpoint := e } _ w.point
    cases hpt : w.point with
    | idle =>
      rw [hpt] at hat
      exact hstill hat
    | checking buf =>
      rw [hpt] at hat
      obtain ⟨hb, hmode, hst, hlost⟩ := hat
      refine ⟨hb, hm.trans hmode, hstill hst, fun hw hne => ht (hlost hw ?_)⟩
      simpa [acked, queued, slices_endpoint, enqueued_endpoint id hq] using hne
    | selecting call fin =>
      rw [hpt] at hat
      exact ⟨hm.trans hat.1, hstill hat.2.1, hat.2.2⟩
    | queueing call fin =>
      rw [hpt] at hat
      exact ⟨hm.trans hat.1, hat.2.1, fun hf => hstill (hat.2.2 hf)⟩
  · exact
      { flush := by simp
        failed := by simp
        fin := by simpa using fun payload hm => absurd hm (hq payload true)
        stays := by simp
        dead := fun hdead => ⟨hd hdead, by simpa using hq⟩ }

theorem Held.setPoint (h : Held l isClient id w log) (point : Point) : Held l isClient id { w with point } log :=
  ⟨h.run, h.handles, h.mode, h.chunk, h.exclusive, h.pending, h.account, h.once, h.ended, h.done⟩

/-- Events that acknowledge and enqueue nothing. -/
theorem Held.append (h : Held l isClient id w log) (ha : acked evs = []) (hl : (slices evs).filter (· ≠ []) = [])
    (he : enqueued id evs = [])
    (hd : ∀ n, .returned .shutdown (some (.ok n)) ∈ evs → w.stream.shutdownComplete = true) :
    Held l isClient id w (log ++ evs) := by
  have hfins : fins id (log ++ evs) = fins id log := by
    simp [fins, he]
  exact
    { h with
      account := h.account.congr rfl (fun hdead => hdead) ha (by simp [queued, he]) hl
      once := hfins ▸ h.once
      ended := fun hpos => h.ended (hfins ▸ hpos)
      done := fun n hn => (List.mem_append.mp hn).elim (h.done n) (hd n) }

/-- How a method answers while it polls no future; `whole` is what it knows when it accepts a slice. -/
inductive Replies (id : Nat) (w : AsyncWrite) (whole : Prop) : AsyncWrite × List StreamEvent → Prop
  | error (call : PollCall) (error : IoError) (hc : call = .shutdown → w.stream.shutdownComplete = false) :
    Replies id w whole (w.ret call (some (.error error)))
  | nothing : Replies id w whole (w.ret (.write []) (some (.ok 0)))
  | complete (hc : w.stream.shutdownComplete = true) : Replies id w whole (w.ret .shutdown (some (.ok 0)))
  | check (buf : Bytes) (hbuf : buf ≠ []) (ho : w.endpoint.shared.closed = false) :
    Replies id w whole (w.goto (.checking buf))
  | poll (call : PollCall) (hr : w.Ready call) (hw : w.stream.writeFut.isSome) :
    Replies id w whole (w.goto (.selecting call false))
  | flush (hw : w.stream.writeFut = none) : Replies id w whole (w.ret .flush (some (.ok 0)))
  | fin (hw : w.stream.writeFut = none) (hc : w.stream.shutdownComplete = false) :
    Replies id w whole ((w.setStream { w.stream with shutdownFut := true }).goto (.selecting .shutdown true))
  | accept (buf : Bytes) (hr : w.Ready (.write buf)) (hw : w.stream.writeFut = none) (h : whole)
    (hm : w.endpoint.shared.maxStreamPayload id ≠ 0) :
    Replies id w whole
      ((w.setStream { w.stream with writeFut := some (buf.take (w.endpoint.shared.maxStreamPayload id)) }).ret
        (.write buf) (some (.ok (buf.take (w.endpoint.shared.maxStreamPayload id)).length)))

variable {whole : Prop} {call : PollCall}

theorem flushed_replies (hw : w.stream.writeFut = none) (hr : w.Ready call) (h : ∀ buf, call = .write buf → whole) :
    Replies id w whole (w.flushed id call) := by
  cases call with
  | write buf =>
    simp only [flushed]
    split_ifs with hm
    · exact .error _ _ (by simp)
    · exact .accept buf hr hw (h buf rfl) hm
  | flush => exact .flush hw
  | shutdown => exact .fin hw hr

theorem pollWriteFut_replies (hr : w.Ready call)
    (h : w.stream.writeFut = none → ∀ buf, call = .write buf → whole) :
    Replies id w whole (w.pollWriteFut id call) := by
  unfold pollWriteFut
  split_ifs with hw
  · exact .poll call hr hw
  · have hnone := Option.not_isSome_iff_eq_none.mp hw
    exact flushed_replies hnone hr (h hnone)

/-- A slice is accepted: nothing was missing, and now the slice is. -/
theorem Held.accept (h : Held l isClient id w log) (hm : w.mode id = 2) {buf : Bytes} (hr : w.Ready (.write buf))
    (hw : w.stream.writeFut = none) (hwhole : acked log = queued id log)
    (hmax : w.endpoint.shared.maxStreamPayload id ≠ 0) :
    Held l isClient id
      (w.setStream { w.stream with writeFut := some (buf.take (w.endpoint.shared.maxStreamPayload id)) })
      (log ++ [.returned (.write buf) (some (.ok (buf.take (w.endpoint.shared.maxStreamPayload id)).length))]) := by
  obtain ⟨hbuf, hfut, hcomplete⟩ := hr
  generalize hn : w.endpoint.shared.maxStreamPayload id = n at hmax ⊢
  have hne : buf.take n ≠ [] := by
    simp [hbuf, hmax]
  have hslice : slices [.returned (.write buf) (some (.ok (buf.take n).length))] = [buf.take n] := by
    have htake : buf.take (buf.take n).length = buf.take n := by
      rw [List.take_eq_take_iff, List.length_take]
      omega
    exact congrArg (fun slice => [slice]) htake
  have hfins : ∀ ev : StreamEvent, enqueued id [ev] = [] → fins id (log ++ [ev]) = fins id log := by
    intro ev hev
    simp [fins, hev]
  have hcheck : w.endpoint.shared.checkChunk id (buf.take n) false = .ok () := by
    obtain ⟨elog, hrun⟩ := h.run
    have hvalid : w.endpoint.shared.limits.Valid := h.limits ▸ Endpoint.reach_valid hrun
    have hle := h.opened.le (Sender.reach_wf (Endpoint.reach_sender hrun)).ids
    have hiff := w.endpoint.shared.checkChunk_iff_le hvalid (.expect id) (buf.take n) false
    rw [VarInt.expect_intoInner _ hle, hn] at hiff
    exact hiff.mpr (List.length_take_le _ _)
  exact
    { run := h.run
      handles := h.handles
      mode := fun _ => hm
      chunk := by
        intro chunk hc
        cases hc
        exact ⟨hne, hcheck⟩
      exclusive := by
        intro hor
        simp [setStream, hfut, hcomplete] at hor
      pending := by
        intro p hp
        rcases h.pending p hp with ⟨-, hc⟩ | ⟨-, -, hc⟩
        · rw [hw] at hc
          cases hc
        · rw [hfut] at hc
          cases hc
      account := by
        have hacked : acked (log ++ [.returned (.write buf) (some (.ok (buf.take n).length))]) =
            acked log ++ buf.take n := by
          rw [acked_append, acked, acked, hslice, List.flatten_singleton]
        refine ⟨?_, ?_⟩
        · rw [hacked, hwhole, queued_append]
          simp [queued, enqueued]
        · simp only [lastSlice, slices_append, hslice, List.filter_append]
          simp [hne]
      once := by rw [hfins _ rfl]; exact h.once
      ended := by rw [hfins _ rfl]; exact h.ended
      done := by
        intro k hk
        rcases List.mem_append.mp hk with hk | hk
        · exact h.done k hk
        · simp at hk }

/-- The future for the FIN is created. -/
theorem Held.openFin (h : Held l isClient id w log) (hm : w.mode id = 2) (hw : w.stream.writeFut = none) :
    Held l isClient id (w.setStream { w.stream with shutdownFut := true }) log where
  run := h.run
  handles := h.handles
  mode _ := hm
  chunk := h.chunk
  exclusive _ := hw
  pending p hp := by
    rcases h.pending p hp with hown | ⟨hfin, hpay, -⟩
    · exact .inl hown
    · exact .inr ⟨hfin, hpay, rfl⟩
  account := h.account
  once := h.once
  ended := h.ended
  done := h.done

/-- A method reports an error. -/
theorem Held.refuse (h : Held l isClient id w log) (hst : w.Still id) (call : PollCall) (error : IoError) :
    Inv l isClient id (w.ret call (some (.error error))).1 (log ++ (w.ret call (some (.error error))).2) := by
  refine ⟨(h.append ?_ ?_ rfl ?_).setPoint .idle, hst⟩
  · cases call <;> rfl
  · cases call <;> rfl
  · intro n hn
    simp [ret] at hn

theorem Replies.inv (h : Held l isClient id w log) (hm : w.mode id = 2) (hst : w.Still id)
    (hr : Replies id w (acked log = queued id log) (w', evs)) : Inv l isClient id w' (log ++ evs) := by
  have hret : ∀ {call result}, acked [.returned call result] = [] →
      (slices [.returned call result]).filter (· ≠ []) = [] →
      (∀ n, call = .shutdown → result = some (.ok n) → w.stream.shutdownComplete = true) →
      Inv l isClient id (w.ret call result).1 (log ++ (w.ret call result).2) := by
    intro call result ha hs hd
    refine ⟨(h.append ha hs rfl ?_).setPoint .idle, hst⟩
    intro n hn
    obtain ⟨hcall, hresult⟩ : call = .shutdown ∧ result = some (.ok n) := by simpa [eq_comm] using hn
    exact hd n hcall hresult
  have hgoto : ∀ {point}, w.At id log point → Inv l isClient id (w.goto point).1 (log ++ (w.goto point).2) := by
    intro point hat
    rw [goto, List.append_nil]
    refine ⟨h.setPoint point, ?_⟩
    cases point <;> exact hat
  generalize hres : (w', evs) = res at hr
  cases hr with
  | error call error hc =>
    cases hres
    exact h.refuse hst call error
  | nothing =>
    cases hres
    exact hret rfl rfl (by simp)
  | complete hc =>
    cases hres
    exact hret rfl rfl fun _ _ _ => hc
  | check buf hbuf ho =>
    cases hres
    refine hgoto ⟨hbuf, hm, hst, fun hw hne => ?_⟩
    have hacc := h.account
    unfold Account at hacc
    rw [hw] at hacc
    rcases hacc.resolve_left hne with ⟨hdead, -⟩
    exact hdead.resolve_left (by simp [ho])
  | poll call hready hw =>
    cases hres
    exact hgoto ⟨hm, hst, hw, hready⟩
  | flush hw =>
    cases hres
    exact hret rfl rfl (by simp)
  | fin hw hc =>
    cases hres
    rw [List.append_nil]
    exact ⟨(h.openFin hm hw).setPoint _, hm, hst, rfl, rfl, hc⟩
  | accept buf hready hw hwhole hmax =>
    cases hres
    exact ⟨(h.accept hm hready hw hwhole hmax).setPoint .idle, hst⟩

/-- What an answer shows; it comes without a step of a future. -/
theorem Replies.shows (hr : Replies id w whole (w', evs)) :
    (∀ n, .returned .flush (some (.ok n)) ∈ evs → w'.stream.writeFut = none ∧ Clean evs) ∧
      (w.stream.shutdownComplete = true → ∀ r, .returned .shutdown r ∈ evs → r = some (.ok 0)) ∧
      (∀ fin result, .resolved fin result ∉ evs) ∧ (∀ ev, .endpoint ev ∉ evs) ∧
      w'.endpoint = w.endpoint := by
  generalize hres : (w', evs) = res at hr
  cases hr with
  | error call error hc =>
    cases hres
    refine ⟨by simp, fun hcomplete r hm => ?_, by simp, by simp, rfl⟩
    obtain ⟨hcall, -⟩ : PollCall.shutdown = call ∧ r = some (.error error) := by simpa using hm
    exact absurd (hc hcall.symm) (by simp [hcomplete])
  | flush hw =>
    cases hres
    exact ⟨fun n _ => ⟨hw, by simp [Clean]⟩, by simp, by simp, by simp, rfl⟩
  | _ =>
    cases hres
    exact ⟨by simp, by simp, by simp, by simp, rfl⟩

/-- The mode is chosen. -/
theorem Held.select (h : Held l isClient id w log) (hst : w.Still id) {mode : Nat}
    (hs : Shared.selectMode (w.mode id) 2 = .ok mode) :
    let w₁ := w.setShared (w.endpoint.shared.setLife id { w.endpoint.shared.life id with sendMode := mode })
    Held l isClient id w₁ log ∧ w₁.mode id = 2 ∧ w₁.Still id := by
  intro w₁
  have hmode : mode = 2 := by
    unfold Shared.selectMode at hs
    split_ifs at hs
    exact (Except.ok.inj hs).symm
  have hm : w₁.mode id = 2 := by
    simp [w₁, AsyncWrite.mode, setShared, Shared.setLife, hmode]
  refine ⟨?_, hm, hst⟩
  have hrun : ∃ elog, (Endpoint.machine l isClient).Reach w₁.endpoint elog := by
    obtain ⟨elog, hr⟩ := h.run
    cases hp : (w.endpoint.shared.send id).pending with
    | none => exact ⟨_, hr.step ⟨_, Endpoint.step_selectMode h.handles hp hs⟩⟩
    | some p =>
      -- the call is not the first, so the mode does not change
      have hne : w.stream ≠ {} := by
        intro he
        rcases h.pending p hp with ⟨-, hc⟩ | ⟨-, -, hc⟩ <;> rw [he] at hc <;> cases hc
      have hsame : w₁.endpoint = w.endpoint := by
        simp only [w₁, setShared, hmode, Endpoint.setLife_mode _ _ _ (h.mode hne)]
      exact ⟨elog, hsame ▸ hr⟩
  exact
    { run := hrun
      handles := by simpa [w₁, setShared, Shared.setLife] using h.handles
      mode := fun _ => hm
      chunk := h.chunk
      exclusive := h.exclusive
      pending := h.pending
      account := h.account
      once := h.once
      ended := h.ended
      done := h.done }

theorem Shows.of_replies {w₁ : AsyncWrite} (hr : Replies id w₁ whole (w', evs)) (hs : w₁.stream = w.stream)
    (hd : w.endpoint.shared.Dead id → w₁.endpoint.shared.Dead id) : Shows id w log evs w' := by
  obtain ⟨hflush, hstays, hresolved, hendpoint, he⟩ := hr.shows
  exact
    { flush := hflush
      failed := fun error hm => absurd hm (hresolved _ _)
      fin := fun payload hm => absurd hm (hendpoint _)
      stays := fun hc => hstays (hs ▸ hc)
      dead := fun hdead => ⟨he ▸ hd hdead, fun _ _ => hendpoint _⟩ }

/-- A call of a method. -/
theorem Inv.enter (h : Inv l isClient id w log) (hpt : w.point = .idle) (call : PollCall) :
    Inv l isClient id (w.enter id call).1 (log ++ (w.enter id call).2) ∧
      Shows id w log (w.enter id call).2 (w.enter id call).1 := by
  have hst : w.Still id := by
    have hat := h.here
    rw [hpt] at hat
    exact hat
  have hsel : ∀ body,
      (∀ w₁ : AsyncWrite, w₁.stream = w.stream → Replies id w₁ (acked log = queued id log) (body w₁)) →
      Inv l isClient id (w.selectMode id call body).1 (log ++ (w.selectMode id call body).2) ∧
        Shows id w log (w.selectMode id call body).2 (w.selectMode id call body).1 := by
    intro body hbody
    unfold selectMode
    simp only
    cases hs : Shared.selectMode (w.endpoint.shared.life id).sendMode 2 with
    | error error =>
      -- another API was used on the stream, so no call has got this far
      have hnew : w.stream = {} := by
        by_contra hne
        rw [show (w.endpoint.shared.life id).sendMode = 2 from h.mode hne] at hs
        cases hs
      have hr : Replies id w False (w.ret call (some (.error error.toIoError))) :=
        .error call _ fun _ => by rw [hnew]
      exact ⟨h.toHeld.refuse hst call _, .of_replies hr rfl fun hd => hd⟩
    | ok mode =>
      obtain ⟨hheld, hm, hst₁⟩ := h.toHeld.select hst hs
      have hr :=
        hbody (w.setShared (w.endpoint.shared.setLife id { w.endpoint.shared.life id with sendMode := mode })) rfl
      exact ⟨hr.inv hheld hm hst₁, .of_replies hr rfl fun hd => hd⟩
  cases call with
  | write buf =>
    refine hsel _ fun w₁ hw₁ => ?_
    split_ifs with hbuf hc
    · subst hbuf
      exact .nothing
    · exact .error _ _ (by simp)
    · exact .check buf hbuf (by simpa using hc)
  | flush => exact hsel _ fun w₁ _ => pollWriteFut_replies trivial fun _ => by simp
  | shutdown =>
    refine hsel _ fun w₁ hw₁ => ?_
    split_ifs with hc
    · exact .complete hc
    · exact pollWriteFut_replies (Bool.eq_false_of_not_eq_true hc) fun _ => by simp

/-- The second half of `poll_write`. -/
theorem Inv.check (h : Inv l isClient id w log) {buf : Bytes} (hpt : w.point = .checking buf) :
    Inv l isClient id (w.checkWrite id buf).1 (log ++ (w.checkWrite id buf).2) ∧
      Shows id w log (w.checkWrite id buf).2 (w.checkWrite id buf).1 := by
  have hat := h.here
  rw [hpt] at hat
  obtain ⟨hbuf, hm, hst, hlost⟩ := hat
  have hself : w.setShared (w.endpoint.shared.setLife id { w.endpoint.shared.life id with sendMode := 2 }) = w := by
    rw [Endpoint.setLife_mode _ _ _ hm]
    rfl
  have hr : Replies id w (acked log = queued id log) (w.checkWrite id buf) := by
    unfold checkWrite
    split_ifs with hc
    · exact .error _ _ (by simp)
    · simp only [Bool.or_eq_true, not_or, Bool.not_eq_true] at hc
      obtain ⟨⟨ht, hfut⟩, hcomplete⟩ := hc
      have hsel : Shared.selectMode (w.endpoint.shared.life id).sendMode 2 = .ok 2 := by
        rw [show (w.endpoint.shared.life id).sendMode = 2 from hm]
        rfl
      simp only [pollFlush, selectMode, hsel, hself]
      refine pollWriteFut_replies ⟨hbuf, hfut, hcomplete⟩ fun hw _ _ => ?_
      by_contra hne
      exact absurd (hlost hw hne) (by simp [ht])
  exact ⟨hr.inv h.toHeld hm hst, .of_replies hr rfl fun hd => hd⟩

/-- The stream's own call has taken a step of the endpoint. -/
structure Moved (l : Limits) (isClient : Bool) (id : Nat) (s : Shared) (e : Endpoint) : Prop where
  run : ∃ elog, (Endpoint.machine l isClient).Reach e elog
  core : e.shared.core = s.core
  terminal : (s.send id).sendTerminal = true → (e.shared.send id).sendTerminal = true

theorem Moved.dead {s : Shared} {e : Endpoint} (h : Moved l isClient id s e) (hd : s.Dead id) : e.shared.Dead id :=
  hd.imp (fun hc => (congrArg Core.closed h.core).trans hc) h.terminal

theorem Held.moved (h : Held l isClient id w log) {a : Act} {s' : Shared} {evs : List Event}
    (hs : w.endpoint.step a = some ({ w.endpoint with shared := s' }, evs)) (hc : s'.core = w.endpoint.shared.core) :
    Moved l isClient id w.endpoint.shared { w.endpoint with shared := s' } := by
  obtain ⟨elog, hr⟩ := h.run
  have hpass := Endpoint.passes_of_step (Sender.reach_wf (Endpoint.reach_sender hr)) a hs
  exact ⟨⟨_, hr.step ⟨a, hs⟩⟩, hc, hpass.terminal id h.opened⟩

theorem Held.setEndpoint {e : Endpoint} (h : Held l isClient id w log) (hmv : Moved l isClient id w.endpoint.shared e)
    (hp : ∀ p, (e.shared.send id).pending = some p → w.Owns p)
    (hend : (∃ p, (w.endpoint.shared.send id).pending = some p ∧ p.stage = .enqueued) →
      (e.shared.send id).sendTerminal = true ∨ ∃ p, (e.shared.send id).pending = some p ∧ p.stage = .enqueued) :
    Held l isClient id { w with endpoint := e } log := by
  have hlife : e.shared.life = w.endpoint.shared.life := congrArg Core.life hmv.core
  have hheld : Held l isClient id { w with endpoint := e } (log ++ ([] : List Event).map .endpoint) :=
    h.change hmv.run (by rw [hlife]; exact h.handles) (by rw [hlife]; rfl) hp hmv.dead
      (fun hor => hor.elim (fun ht => .inl (hmv.terminal ht)) hend) (by simp)
  rwa [List.map_nil, List.append_nil] at hheld

theorem Moved.mode {e : Endpoint} (h : Moved l isClient id w.endpoint.shared e) :
    AsyncWrite.mode id { w with endpoint := e } = w.mode id :=
  congrArg (fun life : Nat → StreamLife => (life id).sendMode) (congrArg Core.life h.core)

/-- The events of a future that fails. -/
def failure (call : PollCall) (fin : Bool) (error : Error) : List StreamEvent :=
  [.resolved fin (.error error), .returned call (some (.error error.toIoError))]

theorem slices_failure (call : PollCall) (fin : Bool) (error : Error) : slices (failure call fin error) = [] := by
  cases call <;> rfl

/-- The chunk of the future is lost, and the call says so. -/
theorem Held.lose {e : Endpoint} (h : Held l isClient id w log) (hm : w.mode id = 2) (hst : w.Still id)
    (hw : w.stream.writeFut.isSome) (hmv : Moved l isClient id w.endpoint.shared e)
    (hp : (e.shared.send id).pending = none) (hdead : w.endpoint.shared.Dead id) (call : PollCall) (error : Error) :
    Held l isClient id (setStream { w with endpoint := e } { w.stream with writeFut := none })
      (log ++ failure call false error) := by
  have hheld := h.setEndpoint hmv (by simp [hp]) fun ⟨p, hpe, hst'⟩ => absurd hst' (hst p hpe)
  obtain ⟨chunk, hchunk⟩ := Option.isSome_iff_exists.mp hw
  have hs := slices_failure call false error
  have hempty : enqueued id (failure call false error) = [] := rfl
  have hfins : fins id (log ++ failure call false error) = fins id log := by
    simp [fins, hempty]
  exact
    { run := hheld.run
      handles := hheld.handles
      mode := fun _ => hmv.mode.trans hm
      chunk := by
        intro c hc
        cases hc
      exclusive := fun _ => rfl
      pending := fun p hpe => absurd (hp.symm.trans hpe) (by simp)
      account := by
        have hacc := h.account
        unfold Account at hacc
        rw [hchunk] at hacc
        refine .inr ⟨hmv.dead hdead, fun hclean => ?_, chunk, ?_, ?_⟩
        · exact hclean call error.toIoError (by simp [failure])
        · rw [acked_append, queued_append, hacc.1]
          simp [acked, hs, queued, hempty]
        · rw [← hacc.2]
          simp [lastSlice, hs]
      once := hfins ▸ h.once
      ended := fun hpos => hheld.ended (hfins ▸ hpos)
      done := by
        intro n hn
        rcases List.mem_append.mp hn with hn | hn
        · exact h.done n hn
        · simp [failure] at hn }

/-- The future for the FIN ends without it. -/
theorem Held.closeFin (h : Held l isClient id w log) (hm : w.mode id = 2)
    (hp : (w.endpoint.shared.send id).pending = none) (complete : Bool) (hw : w.stream.writeFut = none)
    (hc : w.stream.shutdownComplete = true → complete = true) :
    Held l isClient id (w.setStream { w.stream with shutdownFut := false, shutdownComplete := complete }) log where
  run := h.run
  handles := h.handles
  mode _ := hm
  chunk := h.chunk
  exclusive _ := hw
  pending p hpe := absurd (hp.symm.trans hpe) (by simp)
  account := h.account
  once := h.once
  ended := h.ended
  done n hn := hc (h.done n hn)

/-- The polled future fails. -/
theorem Held.fail {e : Endpoint} (h : Held l isClient id w log) (hm : w.mode id = 2) (hst : w.Still id) {fin : Bool}
    (hpolls : w.Polls call fin) (hmv : Moved l isClient id w.endpoint.shared e) (hp : (e.shared.send id).pending = none)
    (error : Error) (he : fin = false → w.endpoint.shared.Dead id ∧ ∀ message, error ≠ .limitExceeded message) :
    let r := ({ w with endpoint := e } : AsyncWrite).resolve id call fin (.error error)
    Inv l isClient id r.1 (log ++ r.2) ∧ Shows id w log r.2 r.1 := by
  have hstill : Still id { w with endpoint := e } := fun p hpe => absurd (hp.symm.trans hpe) (by simp)
  cases fin with
  | false =>
    obtain ⟨hdead, hlim⟩ := he rfl
    refine ⟨⟨(h.lose hm hst hpolls.1 hmv hp hdead call error).setPoint .idle, hstill⟩, ?_⟩
    exact
      { flush := by simp [resolve, ret]
        failed := by
          intro error' hm'
          obtain rfl : error' = error := by simpa [resolve, ret] using hm'
          exact ⟨⟨call, _, List.mem_cons_of_mem _ List.mem_cons_self⟩, hlim, hmv.dead hdead⟩
        fin := by simp [resolve, ret]
        stays := by
          intro hcomplete
          obtain ⟨hsome, -⟩ := hpolls
          rw [h.exclusive (.inr hcomplete)] at hsome
          cases hsome
        dead := fun hd => ⟨hmv.dead hd, by simp [resolve, ret]⟩ }
  | true =>
    obtain ⟨rfl, hfut, hcomplete⟩ := hpolls
    have hheld := h.setEndpoint hmv (by simp [hp]) fun ⟨p, hpe, hst'⟩ => absurd hst' (hst p hpe)
    have hclose :=
      hheld.closeFin (hmv.mode.trans hm) hp w.stream.shutdownComplete (h.exclusive (.inl hfut)) fun hc => hc
    have hs := slices_failure .shutdown true error
    have happ : Held l isClient id _ (log ++ failure .shutdown true error) :=
      hclose.append (by simp [acked, hs]) (by simp [hs]) rfl (by simp [failure])
    refine ⟨⟨happ.setPoint .idle, hstill⟩, ?_⟩
    exact
      { flush := by simp [resolve, ret]
        failed := by simp [resolve, ret]
        fin := by simp [resolve, ret]
        stays := by simp [hcomplete]
        dead := fun hd => ⟨hmv.dead hd, by simp [resolve, ret]⟩ }

/-- The pending write of the polled future. -/
theorem Held.owned (h : Held l isClient id w log) {fin : Bool} (hpolls : w.Polls call fin) {p : PendingWrite}
    (hp : (w.endpoint.shared.send id).pending = some p) : p.fin = fin ∧ p.payload = w.chunk fin := by
  cases fin with
  | false =>
    obtain ⟨hsome, -⟩ := hpolls
    rcases h.pending p hp with ⟨hfin, hw⟩ | ⟨-, -, hfut⟩
    · exact ⟨hfin, by simp [AsyncWrite.chunk, hw]⟩
    · rw [h.exclusive (.inl hfut)] at hsome
      cases hsome
  | true =>
    obtain ⟨-, hfut, -⟩ := hpolls
    rcases h.pending p hp with ⟨-, hw⟩ | ⟨hfin, hpay, -⟩
    · rw [h.exclusive (.inl hfut)] at hw
      cases hw
    · exact ⟨hfin, by simp [AsyncWrite.chunk, hpay]⟩

theorem Polls.owns {fin : Bool} (hpolls : w.Polls call fin) (stage : WriteStage) :
    w.Owns ⟨w.chunk fin, fin, stage⟩ := by
  cases fin with
  | false =>
    obtain ⟨chunk, hchunk⟩ := Option.isSome_iff_exists.mp hpolls.1
    exact .inl ⟨rfl, by simp [AsyncWrite.chunk, hchunk]⟩
  | true => exact .inr ⟨rfl, rfl, hpolls.2.1⟩

/-- A turn of `queue_stream_chunk` that leaves the future pending and enqueues nothing. -/
theorem Inv.wait {e : Endpoint} (h : Inv l isClient id w log) {fin : Bool} (hpt : w.point = .queueing call fin)
    (hpolls : w.Polls call fin) (hmv : Moved l isClient id w.endpoint.shared e) {p : PendingWrite}
    (hp : (e.shared.send id).pending = some p) (hown : w.Owns p) (hold : w.Still id) (hst : p.stage ≠ .enqueued) :
    Inv l isClient id { w with endpoint := e } log := by
  have hm : w.mode id = 2 := by
    have hat := h.here
    rw [hpt] at hat
    exact hat.1
  have hheld := h.toHeld.setEndpoint hmv (fun q hq => by rw [hp] at hq; cases hq; exact hown)
    fun ⟨q, hq, hqst⟩ => absurd hqst (hold q hq)
  refine ⟨hheld, ?_⟩
  rw [show ({ w with endpoint := e } : AsyncWrite).point = .queueing call fin from hpt]
  exact ⟨hmv.mode.trans hm, hpolls, fun _ q hq => by rw [show _ = some p from hp] at hq; cases hq; exact hst⟩

/-- A chunk is enqueued, and its future is done. -/
theorem Held.enqueueChunk {e : Endpoint} (h : Held l isClient id w log) (hm : w.mode id = 2) {chunk : Bytes}
    (hchunk : w.stream.writeFut = some chunk) (hmv : Moved l isClient id w.endpoint.shared e)
    (hold : w.Still id) (hp : (e.shared.send id).pending = none) (hlive : ¬ w.endpoint.shared.Dead id) :
    Held l isClient id (setStream { w with endpoint := e } { w.stream with writeFut := none })
      (log ++ [.endpoint (.queued id chunk false), .resolved false (.ok ())]) ∧
    acked (log ++ [.endpoint (.queued id chunk false), .resolved false (.ok ())]) =
      queued id (log ++ [.endpoint (.queued id chunk false), .resolved false (.ok ())]) := by
  have hlife : e.shared.life = w.endpoint.shared.life := congrArg Core.life hmv.core
  have hacc := h.account
  unfold Account at hacc
  rw [hchunk] at hacc
  have hwhole : acked (log ++ [.endpoint (.queued id chunk false), .resolved false (.ok ())]) =
      queued id (log ++ [.endpoint (.queued id chunk false), .resolved false (.ok ())]) := by
    rw [acked_append, queued_append, hacc.1]
    simp [acked, slices, queued, enqueued]
  have hnone : fins id log = 0 := by
    by_contra hne
    rcases h.ended (Nat.pos_of_ne_zero hne) with ht | ⟨p, hpe, hst⟩
    · exact hlive (.inr ht)
    · exact hold p hpe hst
  have hfins : fins id (log ++ [.endpoint (.queued id chunk false), .resolved false (.ok ())]) = 0 := by
    simpa [fins, enqueued] using hnone
  refine ⟨?_, hwhole⟩
  exact
    { run := hmv.run
      handles := by
        change (e.shared.life id).sendHandles ≠ 0
        rw [hlife]
        exact h.handles
      mode := fun _ => hmv.mode.trans hm
      chunk := by
        intro c hc
        cases hc
      exclusive := fun _ => rfl
      pending := fun p hpe => absurd (hp.symm.trans hpe) (by simp)
      account := .inl hwhole
      once := by rw [hfins]; omega
      ended := by rw [hfins]; omega
      done := by
        intro n hn
        rcases List.mem_append.mp hn with hn | hn
        · exact h.done n hn
        · simp at hn }

/-- The method goes on after its chunk was enqueued. -/
theorem Held.written {e : Endpoint} (h : Held l isClient id w log) (hm : w.mode id = 2) (hready : w.Ready call)
    {chunk : Bytes} (hchunk : w.stream.writeFut = some chunk) (hmv : Moved l isClient id w.endpoint.shared e)
    (hold : w.Still id) (hp : (e.shared.send id).pending = none) (hlive : ¬ w.endpoint.shared.Dead id) :
    let r := (setStream { w with endpoint := e } { w.stream with writeFut := none }).flushed id call
    Inv l isClient id r.1 (log ++ (.endpoint (.queued id chunk false) :: .resolved false (.ok ()) :: r.2)) ∧
      Shows id w log (.endpoint (.queued id chunk false) :: .resolved false (.ok ()) :: r.2) r.1 := by
  obtain ⟨hheld, hwhole⟩ := h.enqueueChunk hm hchunk hmv hold hp hlive
  have hnone : (setStream { w with endpoint := e } { w.stream with writeFut := none }).stream.writeFut = none := rfl
  have hr := @flushed_replies id (setStream { w with endpoint := e } { w.stream with writeFut := none }) _ call hnone
    (by cases call <;> exact hready) fun _ _ => hwhole
  have hstill : Still id (setStream { w with endpoint := e } { w.stream with writeFut := none }) :=
    fun p hpe => absurd (hp.symm.trans hpe) (by simp)
  generalize (setStream { w with endpoint := e } { w.stream with writeFut := none }).flushed id call = r at hr ⊢
  obtain ⟨w', evs⟩ := r
  obtain ⟨hflush, hstays, hresolved, hendpoint, -⟩ := hr.shows
  constructor
  · have hinv := hr.inv hheld (hmv.mode.trans hm) hstill
    rwa [List.append_assoc] at hinv
  · exact
      { flush := by
          intro n hn
          obtain ⟨hw, hclean⟩ := hflush n (by simpa using hn)
          exact ⟨hw, by simpa [Clean] using hclean⟩
        failed := by
          intro error hn
          exact absurd (by simpa using hn) (hresolved false (.error error))
        fin := by
          intro payload hn
          exact absurd (by simpa using hn) (hendpoint (.queued id payload true))
        stays := by
          intro hc r' hn
          exact hstays hc r' (by simpa using hn)
        dead := fun hdead => absurd hdead hlive }

/-- The FIN is enqueued, when nothing is missing. -/
theorem Inv.enqueueFin {e : Endpoint} (h : Inv l isClient id w log) (hpt : w.point = .queueing call true)
    (hpolls : w.Polls call true) (hmv : Moved l isClient id w.endpoint.shared e) (hold : w.Still id)
    (hp : (e.shared.send id).pending = some ⟨[], true, .enqueued⟩) (hlive : ¬ w.endpoint.shared.Dead id) :
    Inv l isClient id { w with endpoint := e } (log ++ [.endpoint (.queued id [] true)]) ∧
      acked log = queued id log := by
  have hfut := hpolls.2.1
  have hm : w.mode id = 2 := by
    have hat := h.here
    rw [hpt] at hat
    exact hat.1
  have hw := h.exclusive (.inl hfut)
  have hacc := h.account
  unfold Account at hacc
  rw [hw] at hacc
  have hwhole : acked log = queued id log := hacc.resolve_right fun hlost => hlive hlost.1
  have hnone : fins id log = 0 := by
    by_contra hne
    rcases h.ended (Nat.pos_of_ne_zero hne) with ht | ⟨p, hpe, hst⟩
    · exact hlive (.inr ht)
    · exact hold p hpe hst
  have hheld := h.toHeld.setEndpoint hmv (fun q hq => by rw [hp] at hq; cases hq; exact .inr ⟨rfl, rfl, hfut⟩)
    fun ⟨q, hq, hqst⟩ => absurd hqst (hold q hq)
  have hfins : fins id (log ++ [.endpoint (.queued id [] true)]) = 1 := by
    simp [fins, enqueued] at hnone ⊢
    omega
  refine ⟨⟨{ hheld with
    account := hheld.account.congr rfl (fun hd => hd) rfl (by simp [queued, enqueued]) rfl
    once := hfins.le
    ended := fun _ => .inr ⟨_, hp, rfl⟩
    done := ?_ }, ?_⟩, hwhole⟩
  · intro n hn
    rcases List.mem_append.mp hn with hn | hn
    · exact h.done n hn
    · simp at hn
  · rw [show ({ w with endpoint := e } : AsyncWrite).point = .queueing call true from hpt]
    exact ⟨hmv.mode.trans hm, hpolls, by simp⟩

/-- Steps that show nothing. -/
theorem Shows.quiet (hd : w.endpoint.shared.Dead id → w'.endpoint.shared.Dead id) : Shows id w log [] w' where
  flush := by simp
  failed := by simp
  fin := by simp
  stays := by simp
  dead hdead := ⟨hd hdead, by simp⟩

/-- A turn of the polled future. -/
theorem Inv.queue (h : Inv l isClient id w log) {fin : Bool} (hpt : w.point = .queueing call fin)
    (hs : w.turn id = some (w', evs)) : Inv l isClient id w' (log ++ evs) ∧ Shows id w log evs w' := by
  obtain ⟨hm, hpolls, hstill⟩ : w.mode id = 2 ∧ w.Polls call fin ∧ (fin = false → w.Still id) := by
    have hat := h.here
    rw [hpt] at hat
    exact hat
  obtain ⟨elog, hr⟩ := h.run
  have hwf := Sender.reach_wf (Endpoint.reach_sender hr)
  unfold turn at hs
  rw [hpt] at hs
  simp only at hs
  cases hq : w.endpoint.shared.queueTurn id (w.chunk fin) fin with
  | none =>
    rw [hq] at hs
    cases hs
  | some r =>
    obtain ⟨s', evs', result⟩ := r
    rw [hq] at hs
    obtain ⟨a, -, ha⟩ := Endpoint.step_queueTurn h.handles hm hq
    have hmv := h.toHeld.moved ha (Endpoint.queueTurn_core hq)
    have hone : ∀ {p : PendingWrite}, (w.endpoint.shared.send id).pending = some p →
        p.stage ≠ .enqueued → w.Still id := by
      intro p hw hst q hq
      rw [hw] at hq
      cases hq
      exact hst
    have hcases := Shared.queueTurn_cases (Endpoint.reach_unsealed hr) hwf.closing hq
    cases hcases with
    | failed _ error hdead hold hp he =>
      cases hs
      exact h.toHeld.fail hm hold hpolls hmv hp error fun _ => ⟨hdead, he⟩
    | oversized error hp hcheck =>
      cases hs
      have hold : w.Still id := fun p hpe => absurd (hp.symm.trans hpe) (by simp)
      refine h.toHeld.fail hm hold hpolls hmv hp error ?_
      rintro rfl
      obtain ⟨chunk, hchunk⟩ := Option.isSome_iff_exists.mp hpolls.1
      have hok := (h.chunk chunk hchunk).2
      rw [show w.chunk false = chunk by simp [AsyncWrite.chunk, hchunk], hok] at hcheck
      cases hcheck
    | empty hp hempty =>
      obtain ⟨hpay, rfl⟩ := hempty
      obtain ⟨chunk, hchunk⟩ := Option.isSome_iff_exists.mp hpolls.1
      rw [show w.chunk false = chunk by simp [AsyncWrite.chunk, hchunk]] at hpay
      exact absurd hpay (h.chunk chunk hchunk).1
    | locked hp =>
      cases hs
      rw [List.map_nil, List.append_nil]
      have hold : w.Still id := fun p hpe => absurd (hp.symm.trans hpe) (by simp)
      exact ⟨h.wait hpt hpolls hmv (Shared.pending_setPending _ id _) (hpolls.owns .locked) hold (by simp),
        .quiet hmv.dead⟩
    | acquired p stage _ hw hold hst hp =>
      cases hs
      rw [List.map_nil, List.append_nil]
      have hown : w.Owns { p with stage } := h.pending p hw
      exact ⟨h.wait hpt hpolls hmv hp hown (hone hw hold) hst, .quiet hmv.dead⟩
    | enqueued p _ hw hst hlive hp =>
      obtain ⟨hfin, hpay⟩ := h.toHeld.owned hpolls hw
      have hold := hone hw hst
      rw [hfin] at hp hs
      cases fin with
      | false =>
        obtain ⟨chunk, hchunk⟩ := Option.isSome_iff_exists.mp hpolls.1
        rw [hpay, show w.chunk false = chunk by simp [AsyncWrite.chunk, hchunk]] at hs
        cases hs
        exact h.toHeld.written hm hpolls.2 hchunk hmv hold hp hlive
      | true =>
        cases hs
        have hpay' : p.payload = [] := hpay
        rw [if_pos rfl, hpay'] at hp
        obtain ⟨hinv, hwhole⟩ := h.enqueueFin hpt hpolls hmv hold hp hlive
        obtain ⟨hcall, -, -⟩ := hpolls
        rw [hpay']
        refine ⟨hinv, ?_⟩
        exact
          { flush := by simp
            failed := by simp
            fin := fun _ _ => ⟨hcall ▸ hpt, hwhole⟩
            stays := by simp
            dead := fun hdead => absurd hdead hlive }
    | finished p _ hw hst hp ht =>
      cases fin with
      | false => exact absurd hst (hstill rfl p hw)
      | true =>
        cases hs
        obtain ⟨rfl, hfut, hcomplete⟩ := hpolls
        have hheld := h.toHeld.setEndpoint hmv (fun q hq => absurd (hp.symm.trans hq) (by simp)) fun _ => .inl ht
        have hclose := hheld.closeFin (hmv.mode.trans hm) hp true (h.exclusive (.inl hfut)) fun _ => rfl
        have happ : Held l isClient id _
            (log ++ [.resolved true (.ok ()), .returned .shutdown (some (.ok 0))]) :=
          hclose.append rfl rfl rfl fun _ _ => rfl
        refine ⟨⟨happ.setPoint .idle, fun q hq => absurd (hp.symm.trans hq) (by simp)⟩, ?_⟩
        exact
          { flush := by simp [resolve, ret]
            failed := by simp [resolve, ret]
            fin := by simp [resolve, ret]
            stays := by simp [hcomplete]
            dead := fun hd => ⟨hmv.dead hd, by simp [resolve, ret]⟩ }

/-- The direction has ended, and the polled future is dropped. -/
theorem Inv.drop (h : Inv l isClient id w log) (hs : w.notice id = some (w', evs)) :
    Inv l isClient id w' (log ++ evs) ∧ Shows id w log evs w' := by
  unfold notice at hs
  split at hs
  · rename_i call fin hpt
    obtain ⟨hm, hst, hpolls⟩ : w.mode id = 2 ∧ w.Still id ∧ w.Polls call fin := by
      have hat := h.here
      rw [hpt] at hat
      exact hat
    split_ifs at hs with ht
    have hstep : w.endpoint.step (.cancel id) =
        some ({ w.endpoint with shared := w.endpoint.shared.cancelWrite id }, []) := by
      simp only [Endpoint.step]
      rw [if_neg]
      intro he
      obtain ⟨p, hp, hpst⟩ := Option.map_eq_some_iff.mp he
      exact hst p hp hpst
    have hmv := h.toHeld.moved hstep (Shared.cancelWrite_core _ id)
    cases hs
    exact h.toHeld.fail hm hst hpolls hmv (Shared.pending_cancelWrite _ id) _ fun _ => ⟨.inr ht, by simp⟩
  · cases hs

/-- An await of the polled future is not ready. -/
theorem Inv.pend (h : Inv l isClient id w log) (hs : w.pend id = some (w', evs)) :
    Inv l isClient id w' (log ++ evs) ∧ Shows id w log evs w' := by
  unfold AsyncWrite.pend at hs
  split at hs
  · rename_i call fin hpt
    have hpolls : w.Polls call fin := by
      have hat := h.here
      rw [hpt] at hat
      exact hat.2.1
    split_ifs at hs with hst
    cases hs
    have hheld : Held l isClient id w (log ++ [.returned call none]) := by
      refine h.toHeld.append ?_ ?_ rfl (by simp)
      · cases call <;> rfl
      · cases call <;> rfl
    refine ⟨⟨hheld.setPoint .idle, fun p hp hpst => hst ?_⟩, ?_⟩
    · rw [show (w.endpoint.shared.send id).pending = some p from hp, Option.map_some, hpst]
    · exact
        { flush := by simp
          failed := by simp
          fin := by simp
          stays := by
            intro hc r hr
            obtain ⟨rfl, rfl⟩ : PollCall.shutdown = call ∧ r = none := by simpa using hr
            cases fin with
            | false =>
              obtain ⟨hsome, -⟩ := hpolls
              rw [h.exclusive (.inr hc)] at hsome
              cases hsome
            | true => exact absurd hpolls.2.2 (by simp [hc])
          dead := fun hd => ⟨hd, by simp⟩ }
  · cases hs

/-- Every step keeps the invariant. -/
theorem Inv.step (h : Inv l isClient id w log) {move : Move} (hs : w.step id move = some (w', evs)) :
    Inv l isClient id w' (log ++ evs) ∧ Shows id w log evs w' := by
  cases move with
  | other a =>
    simp only [AsyncWrite.step] at hs
    split_ifs at hs with ha
    obtain ⟨⟨e, evs'⟩, he, heq⟩ := Option.map_eq_some_iff.mp hs
    cases heq
    exact h.other ha he
  | call call =>
    simp only [AsyncWrite.step] at hs
    split_ifs at hs with hpt
    have hr := h.enter hpt call
    rwa [Option.some.inj hs] at hr
  | turn =>
    simp only [AsyncWrite.step] at hs
    cases hpt : w.point with
    | idle =>
      unfold AsyncWrite.turn at hs
      rw [hpt] at hs
      cases hs
    | checking buf =>
      unfold AsyncWrite.turn at hs
      rw [hpt] at hs
      have hr := h.check hpt
      rwa [Option.some.inj hs] at hr
    | selecting call fin =>
      unfold AsyncWrite.turn at hs
      rw [hpt] at hs
      cases hs
      have hat := h.here
      rw [hpt] at hat
      rw [List.append_nil]
      exact ⟨⟨h.toHeld.setPoint _, hat.1, hat.2.2, fun _ => hat.2.1⟩, .quiet fun hd => hd⟩
    | queueing call fin => exact h.queue hpt hs
  | notice => exact h.drop hs
  | pend => exact h.pend hs

theorem reach_inv (h : (machine l isClient id).Reach w log) : Inv l isClient id w log := by
  refine h.invariant (Inv l isClient id) ?_ ?_
  rotate_left
  · rintro w log evs w' - hi ⟨_, hs⟩
    exact (hi.step hs).1
  rintro w ⟨hrun, hh, hp, hstream, hpt⟩
  have hstill : w.Still id := fun p hpe => absurd (hp.symm.trans hpe) (by simp)
  exact
    { run := hrun
      handles := hh
      mode := fun hn => absurd hstream hn
      chunk := by simp [hstream]
      exclusive := by simp [hstream]
      pending := fun p hpe => absurd (hp.symm.trans hpe) (by simp)
      account := by
        unfold Account
        rw [hstream]
        exact .inl rfl
      once := Nat.zero_le _
      ended := fun hpos => absurd hpos (by simp [fins, enqueued])
      done := by simp
      here := by rw [hpt]; exact hstill }

/-- Nothing is enqueued for a dead stream. -/
theorem dead_steps (h : (machine l isClient id).Reach w log) (hd : w.endpoint.shared.Dead id)
    (hs : (machine l isClient id).Steps w evs w') : ∀ payload fin, .endpoint (.queued id payload fin) ∉ evs := by
  refine (hs.invariant (fun _ _ _ hs => hs) h
    (fun w evs => w.endpoint.shared.Dead id ∧ ∀ payload fin, .endpoint (.queued id payload fin) ∉ evs)
    ⟨hd, by simp⟩ ?_).2
  rintro w₁ tr evs w₂ hr ⟨hdead, hno⟩ ⟨_, hs⟩
  obtain ⟨hdead', hno'⟩ := ((reach_inv hr).step hs).2.dead hdead
  exact ⟨hdead', fun payload fin hm => (List.mem_append.mp hm).elim (hno payload fin) (hno' payload fin)⟩

/-- `AsyncWrite` loses, repeats and reorders nothing it has acknowledged. The bytes enqueued for the stream are
those acknowledged, up to the last slice; a FIN is enqueued at most once; a held slice passes the size checks.
Of every further step: a flush without an earlier error leaves nothing missing; the call whose slice fails
reports it, and nothing is enqueued from then on; a FIN comes from `poll_shutdown`, with nothing missing; and a
shutdown that has succeeded stays so. -/
theorem async_write_lossless (l : Limits) (isClient : Bool) (id : Nat) (w : AsyncWrite) (log : List StreamEvent)
    (h : (machine l isClient id).Reach w log) :
    (∃ missing, acked log = queued id log ++ missing ∧ (missing = [] ∨ lastSlice log = some missing)) ∧
      fins id log ≤ 1 ∧
      (∀ chunk, w.stream.writeFut = some chunk → w.endpoint.shared.checkChunk id chunk false = .ok ()) ∧
      ∀ evs w', (machine l isClient id).step w evs w' →
        (∀ n, .returned .flush (some (.ok n)) ∈ evs → Clean log →
          acked (log ++ evs) = queued id (log ++ evs)) ∧
        (∀ error, .resolved false (.error error) ∈ evs →
          (∃ call io, .returned call (some (.error io)) ∈ evs) ∧
          (∀ message, error ≠ .limitExceeded message) ∧
          ∀ later w'', (machine l isClient id).Steps w' later w'' →
            ∀ payload fin, .endpoint (.queued id payload fin) ∉ later) ∧
        (∀ payload, .endpoint (.queued id payload true) ∈ evs →
          w.point = .queueing .shutdown true ∧ acked log = queued id log) ∧
        ((∃ n, .returned .shutdown (some (.ok n)) ∈ log) →
          ∀ r, .returned .shutdown r ∈ evs → r = some (.ok 0)) := by
  have hinv := reach_inv h
  refine ⟨?_, hinv.once, fun chunk hc => (hinv.chunk chunk hc).2, ?_⟩
  · have hacc := hinv.account
    unfold Account at hacc
    split at hacc
    · rename_i chunk _
      exact ⟨chunk, hacc.1, .inr hacc.2⟩
    · rcases hacc with hwhole | ⟨-, -, missing, hm, hl⟩
      · exact ⟨[], by rw [hwhole, List.append_nil], .inl rfl⟩
      · exact ⟨missing, hm, .inr hl⟩
  · rintro evs w' ⟨move, hs⟩
    obtain ⟨hinv', hshows⟩ := hinv.step hs
    refine ⟨?_, ?_, hshows.fin, fun ⟨n, hn⟩ => hshows.stays (hinv.done n hn)⟩
    · intro n hn hclean
      obtain ⟨hw, hev⟩ := hshows.flush n hn
      have hacc := hinv'.account
      unfold Account at hacc
      rw [hw] at hacc
      refine hacc.resolve_right fun hlost => hlost.2.1 ?_
      exact fun call error hm => (List.mem_append.mp hm).elim (hclean call error) (hev call error)
    · intro error he
      obtain ⟨hret, hlim, hdead⟩ := hshows.failed error he
      exact ⟨hret, hlim, fun later w'' hsteps => dead_steps (h.step ⟨move, hs⟩) hdead hsteps⟩

/-- A client that has opened stream 0. -/
def oneStream : Endpoint :=
  { shared := { Shared.new Endpoint.smallLimits true with openStreams := ⟨1, false⟩ }.openBi.1 }

/-- Two slices are acknowledged; the second call has enqueued the first one. -/
theorem async_write_lossless_two :
    ∃ w log, (machine Endpoint.smallLimits true 0).Reach w log ∧
      acked log = [1, 2, 3, 4] ∧ queued 0 log = [1, 2] ∧
      (∃ missing, acked log = queued 0 log ++ missing ∧ (missing = [] ∨ lastSlice log = some missing)) := by
  have hopen : Machine.runList Endpoint.step { shared := .new Endpoint.smallLimits true } [.openStart, .openFinish] =
      some (oneStream, []) := rfl
  have hr : (Endpoint.machine Endpoint.smallLimits true).Reach oneStream [] :=
    .of_run (Endpoint.connect Endpoint.smallLimits true = .ok ·) rfl _ hopen
  have hrun : ((Machine.runList (step 0) { endpoint := oneStream }
      [.call (.write [1, 2]), .turn, .call (.write [3, 4]), .turn, .turn, .turn, .turn, .turn, .turn, .turn,
        .turn]).map fun r => (acked r.2, queued 0 r.2)) = some ([1, 2, 3, 4], [1, 2]) := by
    decide +kernel
  have h0 : (machine Endpoint.smallLimits true 0).init { endpoint := oneStream } :=
    ⟨⟨[], hr⟩, by decide, rfl, rfl, rfl⟩
  obtain ⟨w, log, hreach, heq⟩ := Machine.runList_reach (machine Endpoint.smallLimits true 0).init h0 _ _ hrun
  obtain ⟨hacked, hqueued⟩ := Prod.mk.inj heq
  exact ⟨w, log, hreach, hacked, hqueued, (async_write_lossless Endpoint.smallLimits true 0 w log hreach).1⟩

end AsyncWrite
end Muxtls
