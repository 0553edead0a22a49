import Muxtls.Ledger.Opening
import Muxtls.Pair.Deadlock

namespace Muxtls

/-- Both directions of stream `j` were ended before an endpoint emitted the OPEN_STREAM of stream `k`, as its
log shows it: it has emitted a terminal frame before that OPEN_STREAM, and accepted one. -/
structure EndedBefore (log : List Event) (k j : Nat) : Prop where
  emitted : ∃ before, before <+: emitted log ∧ (∀ f ∈ before, f.openId ≠ some k) ∧
    ∃ f ∈ before, f.sendsOn j = true ∧ f.ends = true
  accepted : ∃ f ∈ accepted log, f.sendsOn j = true ∧ f.ends = true

theorem EndedBefore.mono {log : List Event} {k j : Nat} (h : EndedBefore log k j) (evs : List Event) :
    EndedBefore (log ++ evs) k j := by
  obtain ⟨⟨before, hle, hend⟩, f, hf, hend'⟩ := h
  refine ⟨⟨before, ?_, hend⟩, f, ?_, hend'⟩
  · rw [emitted_append]
    exact hle.trans (List.prefix_append _ _)
  · rw [accepted_append]
    exact List.mem_append_left _ hf

namespace Endpoint

variable {l : Limits} {isClient : Bool} {e e' : Endpoint} {log evs : List Event} {id k : Nat}

/-- A local stream is opened by a step that logs nothing. -/
theorem opened_silently (hr : (machine l isClient).Reach e log) (a : Act) (h : e.step a = some (e', evs))
    (hn : ¬ e.shared.ids.Opened k) (hk : e'.shared.ids.Opened k) (hpar : k % 2 = e.shared.localParity) : evs = [] := by
  have hs := reach_sendStep hr a h
  have hv := (Sender.reach_wf (reach_sender hr)).ids
  change e'.shared.sender.ids.Opened k at hk
  generalize e'.shared.sender = v' at hs hk
  cases hs with
  | openLocal => rfl
  | openRemote =>
    obtain rfl := ((Ids.opened_takeRemote hv k).mp hk).resolve_left hn
    have hp := hv.remote_parity
    have hle := reach_parity hr
    change e.shared.nextRemoteStreamId % 2 = 1 - e.shared.localParity at hp
    change e.shared.nextRemoteStreamId % 2 = _ at hpar
    split_ifs at hle <;> omega
  | _ => exact absurd hk hn

/-- The streams that have a permit, but for the newest one, are fewer than `max_open_streams`. -/
theorem held_lt (h : (machine l isClient).Reach e log) (hk : e.shared.ids.Opened k)
    (hp : (e.ledger.life k).openPermit = true) :
    (((Finset.range e.shared.ids.bound).filter fun j => (e.ledger.life j).openPermit).erase k).card <
      l.maxOpenStreams := by
  have hsum : e.ledger.permits + e.ledger.opening.toNat +
      ∑ j ∈ Finset.range e.shared.ids.bound, (e.ledger.life j).openPermit.toNat = l.maxOpenStreams :=
    Ledger.reach_permits (reach_ledger h)
  have hcard := RangeSum.card_filter e.shared.ids.bound fun j => (e.ledger.life j).openPermit
  have hmem : k ∈ (Finset.range e.shared.ids.bound).filter fun j => (e.ledger.life j).openPermit :=
    Finset.mem_filter.mpr ⟨Finset.mem_range.mpr hk.lt_bound, hp⟩
  have herase := Finset.card_erase_lt_of_mem hmem
  omega

/-- A stream that was admitted had a permit of its own: among the local streams opened before it, fewer than
`max_open_streams` had not ended. -/
theorem reach_admitted (h : (machine l isClient).Reach e log) : ∀ k, e.shared.ids.Opened k →
    k % 2 = e.shared.localParity → ∃ held : Finset Nat, held.card < l.maxOpenStreams ∧
      ∀ j < k, j % 2 = e.shared.localParity → j ∈ held ∨ EndedBefore log k j := by
  refine h.invariant (fun e log => ∀ k, e.shared.ids.Opened k → k % 2 = e.shared.localParity →
    ∃ held : Finset Nat, held.card < l.maxOpenStreams ∧
      ∀ j < k, j % 2 = e.shared.localParity → j ∈ held ∨ EndedBefore log k j) ?_ ?_
  · intro e he k hk
    rw [(connect_ok he).2] at hk
    exact absurd hk (Ids.not_opened_start isClient k)
  · rintro e log evs e' hr ih ⟨a, ha⟩ k hk hpar
    have hr' := hr.step ⟨a, ha⟩
    have hparity : e'.shared.localParity = e.shared.localParity := (reach_parity hr').trans (reach_parity hr).symm
    by_cases hold : e.shared.ids.Opened k
    · obtain ⟨held, hcard, hrest⟩ := ih k hold (hparity ▸ hpar)
      exact ⟨held, hcard, fun j hj hjp => (hrest j hj (hparity ▸ hjp)).imp_right (·.mono evs)⟩
    · -- the stream is new: the others that have no permit have ended both directions
      obtain rfl := opened_silently hr a ha hold hk (hparity ▸ hpar)
      rw [List.append_nil] at hr' ⊢
      have hslots := reach_slots hr'
      refine ⟨_, held_lt hr' hk (permit_of_opened hr ha hold hk), fun j hj hjp => ?_⟩
      have hopened : e'.shared.ids.Opened j := by
        have hlt : k < if k % 2 = e'.shared.localParity then e'.shared.nextLocalStreamId else _ := hk
        rw [if_pos hpar] at hlt
        change j < if j % 2 = e'.shared.localParity then e'.shared.nextLocalStreamId else _
        rw [if_pos hjp]
        omega
      cases hpj : (e'.ledger.life j).openPermit with
      | true =>
        exact .inl (Finset.mem_erase.mpr ⟨by omega,
          Finset.mem_filter.mpr ⟨Finset.mem_range.mpr hopened.lt_bound, hpj⟩⟩)
      | false =>
        obtain ⟨hcomplete, hterm⟩ := (hslots.held j hopened).resolve_left (by rw [hpj]; simp)
        obtain ⟨f, hf, hend⟩ := sent_of_complete hr' hcomplete
        refine .inr
          ⟨⟨_, List.prefix_refl _, ?_, f, emitted_of_sent hr' hf, hend⟩, accepted_of_terminal hr' hterm⟩
        intro g hg hopen
        cases g with
        | openStream streamId =>
          obtain rfl : streamId.intoInner = k := Option.some.inj hopen
          exact hold ((Sender.reach_named (reach_sender hr)).opens streamId hg).2
        | _ => cases hopen

end Endpoint

/-- Room for the OPEN_STREAM that is delivered next: the queue of `accept_bi` has a place, and the writer has
retired the stream whose terminal frame it sent last. -/
def Endpoint.Admits (e : Endpoint) : Prop :=
  e.shared.incomingStreams.length < e.shared.limits.maxOpenStreams ∧ e.todo .writer = []

namespace Pair

variable {l : Limits} {limits : Bool → Limits} {opener : Bool} {p : Pair} {log : List (Bool × Event)} {side : Bool}
  {id : Nat}

/-- Only one side calls `open_bi`. -/
def opensOnly (opener : Bool) (_ : Pair) : Move → Bool
  | .act side .openStart => side == opener
  | _ => true

/-- The runs of two endpoints of which only one opens streams. -/
def openerMachine (limits : Bool → Limits) (opener : Bool) : Machine Pair (Bool × Event) :=
  .ofStep (connect limits = .ok ·) (Machine.guardStep (opensOnly opener) step)

/-- The other side opens no stream. -/
theorem reach_openState (h : (openerMachine limits opener).Reach p log) :
    (p.ep (!opener)).openState = (false, Endpoint.parityOf (!opener)) := by
  refine h.invariant (fun p _ => (p.ep (!opener)).openState = (false, Endpoint.parityOf (!opener))) ?_ ?_
  · intro p hp
    rw [(Endpoint.connect_ok (connect_ok hp (!opener)).1).2]
    cases opener <;> rfl
  · rintro p log evs p' hr ih ⟨m, hm⟩
    obtain ⟨hok, hm⟩ := Machine.guardStep_eq_some.mp hm
    have hfree : (p.ep (!opener)).opening = false := congrArg Prod.fst ih
    have hkeep : ∀ s a e evs', (p.ep s).step a = some (e, evs') → (s = !opener → a ≠ .openStart) →
        (Function.update p.ep s e (!opener)).openState = (false, Endpoint.parityOf (!opener)) := by
      intro s a e evs' he ha
      by_cases hs : s = !opener
      · subst hs
        rw [Function.update_self, Endpoint.openState_of_step a he (ha rfl) hfree, ih]
      · rw [Function.update_of_ne (Ne.symm hs), ih]
    cases m with
    | act s a =>
      simp only [step] at hm
      split_ifs at hm
      obtain ⟨⟨e, evs'⟩, he, heq⟩ := Option.map_eq_some_iff.mp hm
      obtain ⟨rfl, -⟩ := Prod.mk.inj heq
      refine hkeep s a e evs' he ?_
      rintro rfl rfl
      simp [opensOnly] at hok
    | deliver s =>
      simp only [step] at hm
      split at hm
      · cases hm
      · obtain ⟨⟨e, evs'⟩, he, heq⟩ := Option.map_eq_some_iff.mp hm
        obtain ⟨rfl, -⟩ := Prod.mk.inj heq
        exact hkeep s _ e evs' he (by simp)

/-- A stream that its opener had ended before it emitted the next OPEN_STREAM has given its permit back when
that OPEN_STREAM is delivered, if the tasks of the receiver have nothing left to do. -/
theorem released_before (h : (machine limits).Reach p log) (hlive : (p.ep side).Live)
    (hr : (p.ep side).todo .reader = []) (hw : (p.ep side).todo .writer = []) {streamId : VarInt}
    (hle : accepted (sideLog side log) ++ [.openStream streamId] <+: emitted (sideLog (!side) log))
    (hid : (p.ep side).shared.ids.Opened id)
    (hend : EndedBefore (sideLog (!side) log) streamId.intoInner id) :
    ((p.ep side).ledger.life id).openPermit = false := by
  have hreach := reach_endpoint h side
  have hslots := Endpoint.reach_slots hreach
  have hopen : ¬ (p.ep side).ledger.shut = true := by
    rw [Endpoint.not_shut hreach hlive.closed]
    simp
  have hterm : (p.ep side).ledger.terminal id = true := by
    obtain ⟨before, hbefore, hno, f, hf, hon, hends⟩ := hend.emitted
    have hacc : f ∈ accepted (sideLog side log) := by
      rcases List.prefix_or_prefix_of_prefix hle hbefore with hp | hp
      · exact absurd rfl (hno (.openStream streamId) (hp.subset (by simp)))
      · rcases List.mem_append.mp (hp.subset hf) with hm | hm
        · exact hm
        · rw [List.mem_singleton.mp hm] at hon
          cases hon
    refine (RecvSide.reach_inv (Receiver.reach_side (Endpoint.reach_receiver hreach) id)).terminal.mpr
      ⟨f, ?_, hends⟩
    rw [Receiver.tooks_inEvents]
    exact List.mem_filter.mpr ⟨hacc, hon⟩
  have hcomplete : ((p.ep side).ledger.life id).sendComplete = true := by
    obtain ⟨g, hg, hends⟩ := hend.accepted
    obtain ⟨dealt, inflight, hcar⟩ := reach_carries h (!side)
    have hsent : g ∈ sentFrames (sideLog side log) := by
      have hs := hcar.sent
      rw [Bool.not_not] at hs
      rw [hs]
      exact List.mem_append_left _ (hcar.accepted_le.subset hg)
    rcases hslots.completing id hid ⟨g, hsent, hends⟩ with hs | hc | hc
    · exact absurd hs hopen
    · exact hc
    · rw [show (p.ep side).ledger.todo .writer = [] from hw] at hc
      cases hc
  rcases hslots.retiring id hid hcomplete hterm with hs | hp | hm | hm
  · exact absurd hs hopen
  · exact hp
  · rw [show (p.ep side).ledger.todo .reader = [] from hr] at hm
    cases hm
  · rw [show (p.ep side).ledger.todo .writer = [] from hw] at hm
    cases hm

/-- The receiver of an OPEN_STREAM has a permit left for it. -/
theorem permit_left (h : (openerMachine (fun _ => l) opener).Reach p log) (hlive : (p.ep (!opener)).Live)
    (hr : (p.ep (!opener)).todo .reader = []) (hw : (p.ep (!opener)).todo .writer = []) {streamId : VarInt}
    (hle : accepted (sideLog (!opener) log) ++ [.openStream streamId] <+: emitted (sideLog opener log))
    (hnext : streamId.intoInner = (p.ep (!opener)).shared.nextRemoteStreamId) :
    0 < (p.ep (!opener)).shared.openStreams.permits := by
  have hp := h.of_guard
  have hreach := reach_endpoint hp (!opener)
  have hopener := reach_endpoint hp opener
  have hparity := Endpoint.reach_parity hreach
  have hparity' := Endpoint.reach_parity hopener
  obtain ⟨hfree, hlocal⟩ := Prod.mk.inj (reach_openState h)
  obtain ⟨hpar, hopened⟩ :=
    (Sender.reach_named (Endpoint.reach_sender hopener)).opens streamId (hle.subset (by simp))
  obtain ⟨held, hcard, hheld⟩ := Endpoint.reach_admitted hopener streamId.intoInner hopened hpar
  -- whoever has a permit is a stream of the opener that had not ended when the opener took its own permit
  have hsub : ((Finset.range (p.ep (!opener)).shared.ids.bound).filter
      fun j => ((p.ep (!opener)).ledger.life j).openPermit) ⊆ held := by
    intro j hj
    obtain ⟨-, hj⟩ := Finset.mem_filter.mp hj
    have hjo : (p.ep (!opener)).shared.ids.Opened j := by
      by_contra hn
      rw [(Ledger.reach_known (Endpoint.reach_ledger hreach)).life j hn] at hj
      cases hj
    have hlt : j < if j % 2 = (p.ep (!opener)).shared.localParity then (p.ep (!opener)).shared.nextLocalStreamId
      else (p.ep (!opener)).shared.nextRemoteStreamId := hjo
    have hjp : j % 2 = (p.ep opener).shared.localParity ∧ j < streamId.intoInner := by
      rw [hparity, hlocal] at hlt
      rw [hparity', hnext]
      cases opener <;> simp [Endpoint.parityOf] at hlt ⊢ <;> split_ifs at hlt <;> omega
    refine (hheld j hjp.2 hjp.1).resolve_right fun hend => ?_
    rw [released_before hp hlive hr hw (by rwa [Bool.not_not]) hjo (by rwa [Bool.not_not])] at hj
    cases hj
  have hsum : (p.ep (!opener)).shared.openStreams.permits + (p.ep (!opener)).opening.toNat +
      ∑ j ∈ Finset.range (p.ep (!opener)).shared.ids.bound, ((p.ep (!opener)).ledger.life j).openPermit.toNat =
        l.maxOpenStreams := Ledger.reach_permits (Endpoint.reach_ledger hreach)
  have hcount := RangeSum.card_filter (p.ep (!opener)).shared.ids.bound
    fun j => ((p.ep (!opener)).ledger.life j).openPermit
  have hle' := Finset.card_le_card hsub
  rw [hfree, Bool.toNat_false] at hsum
  omega

/-- An opener is not disconnected for opening streams. In a run in which one side opens streams, with the limits
of the other, `on_remote_open` does not run into a limit while both connections are open, if the OPEN_STREAM is
delivered when the accept queue has a place and the writer has retired the stream it has ended last. -/
theorem opener_not_refused (l : Limits) (opener : Bool) (p : Pair) (log : List (Bool × Event))
    (h : (openerMachine (fun _ => l) opener).Reach p log) (hlive : ∀ side, (p.ep side).Live) (side : Bool)
    (p' : Pair) (evs : List (Bool × Event)) (hstep : p.step (.deliver side) = some (p', evs))
    (hadmits : (p.ep side).Admits) (bytes : Bytes) (rest : List Bytes) (streamId : VarInt) (left : Bytes)
    (hc : p.chan side = bytes :: rest) (hdec : Frame.decode bytes = .ok (.openStream streamId, left))
    (message : String) :
    ((p.ep side).shared.onRemoteOpen streamId.intoInner).2 ≠ .error (.limitExceeded message) := by
  have hp := h.of_guard
  have hreach := reach_endpoint hp side
  have hle := next_decoded hp (hlive side).reader hc hdec
  obtain ⟨hpar, hnext⟩ := open_expected hp side bytes rest streamId left hc hdec (hlive side).reader
  have hreading : (p.ep side).todo .reader = [] := by
    simp only [step, hc] at hstep
    obtain ⟨⟨e, evs'⟩, he, -⟩ := Option.map_eq_some_iff.mp hstep
    cases Endpoint.step_cases he with
    | receive _ _ _ hr => exact (Endpoint.ofReading hr).2
  have hside : side = !opener := by
    -- the opener itself receives no OPEN_STREAM
    by_contra hs
    obtain rfl : side = opener := by cases side <;> cases opener <;> simp_all
    obtain ⟨hpar', hopened⟩ :=
      (Sender.reach_named (Endpoint.reach_sender (reach_endpoint hp (!side)))).opens streamId
      (hle.subset (by simp))
    obtain ⟨-, hlocal⟩ := Prod.mk.inj (reach_openState h)
    have hparity := Endpoint.reach_parity (reach_endpoint hp (!side))
    have hlt : streamId.intoInner < if streamId.intoInner % 2 = (p.ep (!side)).shared.localParity
      then (p.ep (!side)).shared.nextLocalStreamId else _ := hopened
    have hpar' : streamId.intoInner % 2 = (p.ep (!side)).shared.localParity := hpar'
    rw [if_pos hpar', hlocal] at hlt
    rw [hparity] at hpar'
    unfold Endpoint.parityOf at hlt
    omega
  subst hside
  have hpermit := permit_left h (hlive _) hreading hadmits.2 (by rwa [Bool.not_not] at hle) hnext
  have hsem : (p.ep (!opener)).shared.openStreams.closed = false := by
    by_contra hsealed
    have hclosed := Endpoint.reach_unsealed_open hreach (Bool.eq_true_of_not_eq_false hsealed)
    exact absurd ((hlive _).closed.symm.trans hclosed) (by simp)
  have hacq : ∃ sem, (p.ep (!opener)).shared.openStreams.tryAcquire 1 = some sem := by
    unfold Semaphore.tryAcquire
    exact ⟨_, if_pos ⟨hsem, hpermit⟩⟩
  obtain ⟨sem, hacq⟩ := hacq
  unfold Shared.onRemoteOpen
  rw [if_neg hpar, if_neg (not_not.mpr hnext), hacq]
  simp only
  split_ifs with hm hfull
  · simp
  · exact absurd hadmits.1 (Nat.not_lt.mpr hfull)
  · simp

/-- Room for one stream. -/
def oneOpen : Limits := { Endpoint.smallLimits with maxOpenStreams := 1 }

/-- SETTINGS goes both ways, and the client opens stream 0. -/
def openRun : List Move :=
  [.act true (.nextFrame []), .act true .send, .act false (.nextFrame []), .act false .send, .deliver true,
    .deliver false, .act true .openStart, .act true .openFinish, .act true (.nextFrame [0]), .act true .send]

/-- The client drops both handles of stream 0, so its peer is asked to stop and resets its own direction. With the
RESET_STREAM of the peer the client has done with the stream, and opens stream 2. -/
def reopenRun : List Move :=
  [.deliver false, .act true (.dropSend 0), .act true (.dropRecv 0), .act true (.cleanup [0]),
    .act true (.work .cleanup), .act true (.work .cleanup), .act true (.work .cleanup), .act true (.work .cleanup),
    .act true (.work .cleanup), .act true (.nextFrame [0]), .act true (.nextFrame [0]), .act true .send,
    .act true (.work .writer), .act true (.work .writer), .act true (.nextFrame [0]), .act true (.nextFrame [0]),
    .act true .send, .deliver false, .act false (.work .reader), .deliver false, .act false (.nextFrame [0]),
    .act false (.nextFrame [0]), .act false .send, .deliver true, .act true (.work .reader), .act true (.work .reader),
    .act true .openStart, .act true .openFinish, .act true (.nextFrame [2]), .act true .send]

/-- The server accepts stream 0, and its writer retires it. -/
def retireRun : List Move :=
  [.act false .accept, .act false (.work .writer), .act false (.work .writer), .act false (.work .writer)]

/-- The OPEN_STREAM of stream 2 finds the accept queue empty and stream 0 retired, with room for one stream. -/
theorem opener_not_refused_again :
    ∃ p log p' evs, (openerMachine (fun _ => oneOpen) true).Reach p log ∧ (∀ side, (p.ep side).Live) ∧
      p.step (.deliver false) = some (p', evs) ∧ (p.ep false).Admits ∧
      p.chan false = [(Frame.openStream (.expect 2)).wire] ∧
      ∀ message, ((p.ep false).shared.onRemoteOpen 2).2 ≠ .error (.limitExceeded message) := by
  have hrun : ((connect fun _ => oneOpen).toOption.bind fun p₀ =>
      (Machine.runList (Machine.guardStep (opensOnly true) step) p₀ (openRun ++ reopenRun ++ retireRun)).map fun r =>
        (decide (∀ side, (r.1.ep side).shared.closed = false ∧ (r.1.ep side).readerDone = false ∧
            (r.1.ep side).writerDone = false),
          decide ((r.1.ep false).shared.incomingStreams.length < (r.1.ep false).shared.limits.maxOpenStreams ∧
            (r.1.ep false).todo .writer = []),
          (r.1.step (.deliver false)).isSome, r.1.chan false)) =
      some (true, true, true, [(Frame.openStream (.expect 2)).wire]) := by
    decide +kernel
  obtain ⟨p₀, hconnect, hrun⟩ := Option.bind_eq_some_iff.mp hrun
  obtain ⟨p, log, hr, heq⟩ := Machine.runList_reach (connect _ = .ok ·) (ok_of_toOption hconnect) _ _ hrun
  simp only [Prod.mk.injEq, decide_eq_true_eq] at heq
  obtain ⟨hopen, hadmits, hstep, hc⟩ := heq
  obtain ⟨⟨p', evs⟩, hstep⟩ := Option.isSome_iff_exists.mp hstep
  have hlive : ∀ side, (p.ep side).Live := fun side => ⟨(hopen side).1, (hopen side).2.1, (hopen side).2.2⟩
  have hdec : Frame.decode (Frame.openStream (.expect 2)).wire = .ok (.openStream (.expect 2), []) :=
    ok_of_toOption (by decide)
  exact ⟨p, log, p', evs, hr, hlive, hstep, hadmits, hc, fun message =>
    opener_not_refused oneOpen true p log hr hlive false p' evs hstep hadmits _ _ (.expect 2) _ hc hdec message⟩

/-- Stream 0 is over for the client, and its OPEN_STREAM for stream 2 is refused while both connections are open:
for the permit of stream 0, which the writer of the server has not given back yet after it sent the RESET_STREAM,
or, when it has, for the handle of stream 0 that nobody has accepted. -/
theorem opener_refused :
    (∃ p log p' evs, (openerMachine (fun _ => oneOpen) true).Reach p log ∧ (∀ side, (p.ep side).Live) ∧
      p.step (.deliver false) = some (p', evs) ∧ p.chan false = [(Frame.openStream (.expect 2)).wire] ∧
      ((p.ep false).shared.onRemoteOpen 2).2 = .error (.limitExceeded "max open streams reached")) ∧
    ∃ p log p' evs, (openerMachine (fun _ => oneOpen) true).Reach p log ∧ (∀ side, (p.ep side).Live) ∧
      p.step (.deliver false) = some (p', evs) ∧ p.chan false = [(Frame.openStream (.expect 2)).wire] ∧
      ((p.ep false).shared.onRemoteOpen 2).2 = .error (.limitExceeded "incoming stream queue is full") := by
  have hrefused : ∀ moves message, ((connect fun _ => oneOpen).toOption.bind fun p₀ =>
      (Machine.runList (Machine.guardStep (opensOnly true) step) p₀ moves).map fun r =>
        (decide (∀ side, (r.1.ep side).shared.closed = false ∧ (r.1.ep side).readerDone = false ∧
            (r.1.ep side).writerDone = false),
          (r.1.step (.deliver false)).isSome, r.1.chan false,
          decide (((r.1.ep false).shared.onRemoteOpen 2).2 = .error (.limitExceeded message)))) =
      some (true, true, [(Frame.openStream (.expect 2)).wire], true) →
      ∃ p log p' evs, (openerMachine (fun _ => oneOpen) true).Reach p log ∧ (∀ side, (p.ep side).Live) ∧
        p.step (.deliver false) = some (p', evs) ∧ p.chan false = [(Frame.openStream (.expect 2)).wire] ∧
        ((p.ep false).shared.onRemoteOpen 2).2 = .error (.limitExceeded message) := by
    intro moves message hrun
    obtain ⟨p₀, hconnect, hrun⟩ := Option.bind_eq_some_iff.mp hrun
    obtain ⟨p, log, hr, heq⟩ := Machine.runList_reach (connect _ = .ok ·) (ok_of_toOption hconnect) _ _ hrun
    simp only [Prod.mk.injEq, decide_eq_true_eq] at heq
    obtain ⟨hopen, hstep, hc, hlimit⟩ := heq
    obtain ⟨⟨p', evs⟩, hstep⟩ := Option.isSome_iff_exists.mp hstep
    exact ⟨p, log, p', evs, hr,
      fun side => ⟨(hopen side).1, (hopen side).2.1, (hopen side).2.2⟩, hstep, hc, hlimit⟩
  constructor
  · exact hrefused (openRun ++ reopenRun) _ (by decide +kernel)
  · exact hrefused (openRun ++ reopenRun ++
      [.act false (.work .writer), .act false (.work .writer), .act false (.work .writer)]) _ (by decide +kernel)

end Pair
end Muxtls
