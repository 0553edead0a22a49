import Muxtls.Sender.Project
import Mathlib.Data.List.Induction

namespace Muxtls

/-- The largest limit that some frames grant. -/
def granted (grant : Frame → Nat) (frames : List Frame) : Nat :=
  frames.foldl (fun n f => max n (grant f)) 0

/-- What a frame grants to the connection. -/
def Frame.connGrant : Frame → Nat
  | .settings data _ _ => data.intoInner
  | .maxData maximum => maximum.intoInner
  | _ => 0

/-- What SETTINGS grants to every stream. -/
def Frame.initialGrant : Frame → Nat
  | .settings _ streamData _ => streamData.intoInner
  | _ => 0

/-- What MAX_STREAM_DATA grants to stream `id`. -/
def Frame.streamGrant (id : Nat) : Frame → Nat
  | .maxStreamData streamId maximum => if streamId.intoInner = id then maximum.intoInner else 0
  | _ => 0

section Granted

variable (grant : Frame → Nat)

@[simp] theorem granted_append_singleton (frames : List Frame) (f : Frame) :
    granted grant (frames ++ [f]) = max (granted grant frames) (grant f) := by
  simp [granted]

theorem granted_le_iff (frames : List Frame) (n : Nat) :
    granted grant frames ≤ n ↔ ∀ f ∈ frames, grant f ≤ n := by
  induction frames using List.reverseRecOn with
  | nil => simp [granted]
  | append_singleton frames f ih =>
    rw [granted_append_singleton, max_le_iff, ih]
    constructor
    · rintro ⟨h, hf⟩ g hg
      rcases List.mem_append.mp hg with hg | hg
      · exact h g hg
      · rw [List.mem_singleton.mp hg]
        exact hf
    · intro h
      exact ⟨fun g hg => h g (List.mem_append_left _ hg), h f (by simp)⟩

theorem granted_mono {frames frames' : List Frame} (h : frames <+: frames') :
    granted grant frames ≤ granted grant frames' :=
  (granted_le_iff grant frames _).mpr fun f hf =>
    (granted_le_iff grant frames' _).mp (le_refl _) f (h.subset hf)

theorem granted_append_zero (frames frames' : List Frame) (h : ∀ f ∈ frames', grant f = 0) :
    granted grant (frames ++ frames') = granted grant frames := by
  induction frames' using List.reverseRecOn with
  | nil => simp
  | append_singleton frames' f ih =>
    rw [← List.append_assoc, granted_append_singleton, h f (by simp), Nat.max_zero]
    exact ih fun g hg => h g (List.mem_append_left _ hg)

theorem granted_accept (log : List Event) (f : Frame) :
    granted grant (accepted (log ++ [.accepted f])) = max (granted grant (accepted log)) (grant f) := by
  rw [accepted_append]
  exact granted_append_singleton grant _ f

theorem granted_accept_zero (log : List Event) (f : Frame) (h : grant f = 0) :
    granted grant (accepted (log ++ [.accepted f])) = granted grant (accepted log) := by
  rw [granted_accept, h, Nat.max_zero]

end Granted

theorem Frame.grants_le (f : Frame) (id : Nat) :
    f.connGrant ≤ varIntMax ∧ f.initialGrant ≤ varIntMax ∧ f.streamGrant id ≤ varIntMax := by
  cases f with
  | settings data streamData frameSize => exact ⟨data.le_max, streamData.le_max, Nat.zero_le _⟩
  | maxData maximum => exact ⟨maximum.le_max, Nat.zero_le _, Nat.zero_le _⟩
  | maxStreamData streamId maximum =>
    refine ⟨Nat.zero_le _, Nat.zero_le _, ?_⟩
    simp only [Frame.streamGrant]
    split_ifs
    · exact maximum.le_max
    · exact Nat.zero_le _
  | _ => exact ⟨Nat.zero_le _, Nat.zero_le _, Nat.zero_le _⟩

namespace Sender

/-- The limits a sender holds are what its peer granted. -/
structure Granted (v : Sender) (log : List Event) : Prop where
  before : v.queues.peerSettings = false → v.queues.peerLimit = 0 ∧ v.queues.peerInitialStreamLimit = 0
  limit : v.queues.peerLimit = granted Frame.connGrant (accepted log)
  initial : v.queues.peerInitialStreamLimit = granted Frame.initialGrant (accepted log)
  stream_le : ∀ id, (v.send id).peerLimit ≤ granted (Frame.streamGrant id) (accepted log)
  stream_eq : ∀ id ∈ v.streams, (v.send id).peerLimit = granted (Frame.streamGrant id) (accepted log)
  fresh : ∀ id, ¬ v.ids.Opened id → granted (Frame.streamGrant id) (accepted log) = 0

/-- Frames that grant nothing. -/
def Grantless (log : List Event) : Prop :=
  ∀ f ∈ accepted log, f.connGrant = 0 ∧ f.initialGrant = 0 ∧ ∀ id, f.streamGrant id = 0

theorem quiet_grantless (log : List Event) (h : ∀ e ∈ log, e.Quiet) : Grantless log := by
  intro f hf
  obtain ⟨e, he, hef⟩ := List.mem_filterMap.mp hf
  have hq := h e he
  cases e with
  | accepted g =>
    cases hef
    cases f <;> first | exact ⟨rfl, rfl, fun _ => rfl⟩ | exact hq.elim
  | _ => cases hef

theorem resetLog_grantless (id : Nat) (log : List Event) (h : ResetLog id log) : Grantless log := by
  intro f hf
  rcases h with rfl | rfl
  · cases hf
  · rw [show f = .stopSending (.expect id) from List.mem_singleton.mp hf]
    exact ⟨rfl, rfl, fun _ => rfl⟩

variable {l : Limits} {v v' : Sender} {log evs : List Event}

/-- A step that keeps the limits and whose frames grant nothing. -/
theorem Granted.keep (h : v.Granted log) (hev : Grantless evs)
    (hp : v'.queues.peerSettings = v.queues.peerSettings) (hl : v'.queues.peerLimit = v.queues.peerLimit)
    (hi : v'.queues.peerInitialStreamLimit = v.queues.peerInitialStreamLimit)
    (hs : ∀ id, (v'.send id).peerLimit = (v.send id).peerLimit)
    (hst : ∀ id ∈ v'.streams, id ∈ v.streams ∨ ¬ v.ids.Opened id)
    (ho : ∀ id, v.ids.Opened id → v'.ids.Opened id) : v'.Granted (log ++ evs) := by
  have hconn := granted_append_zero Frame.connGrant (accepted log) (accepted evs) fun f hf => (hev f hf).1
  have hinit := granted_append_zero Frame.initialGrant (accepted log) (accepted evs) fun f hf =>
    (hev f hf).2.1
  have hstream := fun id => granted_append_zero (Frame.streamGrant id) (accepted log) (accepted evs)
    fun f hf => (hev f hf).2.2 id
  refine ⟨?_, ?_, ?_, ?_, ?_, ?_⟩
  · intro hps
    rw [hl, hi]
    exact h.before (hp ▸ hps)
  · rw [accepted_append, hconn, hl]
    exact h.limit
  · rw [accepted_append, hinit, hi]
    exact h.initial
  · intro id
    rw [accepted_append, hstream, hs]
    exact h.stream_le id
  · intro id hid
    rw [accepted_append, hstream, hs]
    rcases hst id hid with hm | hn
    · exact h.stream_eq id hm
    · have hle := h.stream_le id
      rw [h.fresh id hn] at hle ⊢
      exact Nat.le_zero.mp hle
  · intro id hid
    rw [accepted_append, hstream]
    exact h.fresh id fun hid' => hid (ho id hid')

theorem grantless_nil : Grantless [] := by
  intro f hf
  cases hf

/-- A step that changes nothing in the limits or the map. -/
theorem Granted.same (h : v.Granted log) (hev : Grantless evs) (q : WriterQueues)
    (hp : q.peerSettings = v.queues.peerSettings) (hl : q.peerLimit = v.queues.peerLimit)
    (hi : q.peerInitialStreamLimit = v.queues.peerInitialStreamLimit) :
    (v.setQueues q).Granted (log ++ evs) :=
  h.keep hev hp hl hi (fun _ => rfl) (fun _ hid => .inl hid) fun _ ho => ho

theorem Granted.setSend (h : v.Granted log) (id : Nat) (st : SendState)
    (hst : st.peerLimit = (v.send id).peerLimit) : (v.setSend id st).Granted log := by
  have hlim : ∀ j, ((v.setSend id st).send j).peerLimit = (v.send j).peerLimit := by
    intro j
    by_cases hj : j = id
    · subst hj
      simp [Sender.setSend, hst]
    · simp [Sender.setSend, hj]
  have hk : (v.setSend id st).Granted (log ++ []) :=
    h.keep grantless_nil rfl rfl rfl hlim (fun _ hid => .inl hid) fun _ ho => ho
  rwa [List.append_nil] at hk

theorem Granted.update (h : v.Granted log) (hev : Grantless evs) (q : WriterQueues) (id : Nat)
    (st : SendState) (hp : q.peerSettings = v.queues.peerSettings) (hl : q.peerLimit = v.queues.peerLimit)
    (hi : q.peerInitialStreamLimit = v.queues.peerInitialStreamLimit)
    (hst : st.peerLimit = (v.send id).peerLimit) : ((v.setQueues q).setSend id st).Granted (log ++ evs) :=
  (h.same hev q hp hl hi).setSend id st hst

/-- A stream with a fresh id has been granted nothing yet. -/
theorem Granted.create (hv : v.WF l) (h : v.Granted log) (hev : Grantless evs) {ids : Ids} {id : Nat}
    (hle : v.ids.Le ids) (hn : ¬ v.ids.Opened id) : (v.create ids id).Granted (log ++ evs) := by
  refine h.keep hev rfl rfl rfl ?_ ?_ hle.2
  · intro j
    by_cases hj : j = id
    · subst hj
      simp [Sender.create, hv.fresh j hn]
    · simp [Sender.create, hj]
  · intro j hj
    rcases List.mem_append.mp hj with hj | hj
    · exact .inl hj
    · rw [List.mem_singleton.mp hj]
      exact .inr hn

/-- Credit frames are the only ones that move a limit, and they move it to what they grant. -/
theorem granted_step (hv : v.WF l) (h : v.Granted log) (hs : SendStep l v evs v') :
    v'.Granted (log ++ evs) := by
  have hemit : ∀ f : Frame, Grantless [.emitted f] := by
    intro f g hg
    cases hg
  cases hs with
  | quiet _ hq => exact h.same (quiet_grantless evs hq) v.queues rfl rfl rfl
  | halt _ hq =>
    exact h.keep (quiet_grantless evs hq) rfl rfl rfl (fun _ => rfl) (fun _ hid => .inl hid) fun _ ho => ho
  | openLocal hid hclosed hclosing =>
    have hc := Granted.create hv h grantless_nil (Ids.le_takeLocal hv.ids) (Ids.not_opened_nextLocal hv.ids)
    rw [List.append_nil] at hc
    exact hc.same grantless_nil _ rfl rfl rfl
  | openRemote _ hid hlog =>
    refine Granted.create hv h ?_ (Ids.le_takeRemote hv.ids) (Ids.not_opened_nextRemote hv.ids)
    rcases hlog with rfl | ⟨error, rfl⟩
    · intro f hf
      rw [show f = .openStream (.expect v.ids.nextRemote) from List.mem_singleton.mp hf]
      exact ⟨rfl, rfl, fun _ => rfl⟩
    · intro f hf
      cases hf
  | pend id pending hid hold hnew =>
    rw [List.append_nil]
    exact h.setSend id _ rfl
  | enqueue id w hw hstage hclosing hterm =>
    refine h.update ?_ _ id _ rfl rfl rfl rfl
    intro f hf
    cases hf
  | finish id w hw hstage =>
    rw [List.append_nil]
    exact h.setSend id _ rfl
  | reset id errorCode _ hid hdisp hres hclosing hlog =>
    exact h.update (resetLog_grantless id evs hlog) _ id _ rfl rfl rfl rfl
  | resetAgain id _ hd hlog => exact h.same (resetLog_grantless id evs hlog) v.queues rfl rfl rfl
  | stopRetired id hid hst =>
    refine h.same ?_ v.queues rfl rfl rfl
    intro f hf
    rw [show f = .stopSending (.expect id) from List.mem_singleton.mp hf]
    exact ⟨rfl, rfl, fun _ => rfl⟩
  | ping => exact h.same grantless_nil _ rfl rfl rfl
  | stop id hid hclosing =>
    refine h.same ?_ _ rfl rfl rfl
    intro f hf
    cases hf
  | close code reason fitted hcode hclosed hfit =>
    refine h.keep ?_ ?_ ?_ ?_ (fun _ => rfl) (fun _ hid => .inl hid) fun _ ho => ho
    · intro f hf
      cases hf
    all_goals cases hg : code.intoInner == 0 <;> rfl
  | shutdown _ hq =>
    refine h.keep (quiet_grantless evs hq) rfl rfl rfl (fun _ => rfl) ?_ fun _ ho => ho
    intro id hid
    cases hid
  | pop f control hcut hc => exact h.same (hemit f) _ rfl rfl rfl
  | grant f hcut hc hf => exact h.same (hemit f) _ rfl rfl rfl
  | data id chunk rest skipped later hcut hturn hready hskip hchunk hel =>
    exact h.update (hemit _) _ id _ rfl rfl rfl rfl
  | turn => exact h.same grantless_nil _ rfl rfl rfl
  | closeFrame f hclosing hdrain hf => exact h.same (hemit f) _ rfl rfl rfl
  | settings data streamData frameSize hp hmin hmax =>
    obtain ⟨hl, hi⟩ := h.before hp
    refine ⟨?_, ?_, ?_, ?_, ?_, ?_⟩
    · intro hps
      cases hps
    · rw [granted_accept, ← h.limit, hl, Nat.zero_max]
      rfl
    · rw [granted_accept, ← h.initial, hi, Nat.zero_max]
      rfl
    · intro id
      rw [granted_accept_zero _ _ _ rfl]
      exact h.stream_le id
    · intro id hid
      rw [granted_accept_zero _ _ _ rfl]
      exact h.stream_eq id hid
    · intro id hid
      rw [granted_accept_zero _ _ _ rfl]
      exact h.fresh id hid
  | maxData maximum hp =>
    refine ⟨?_, ?_, ?_, ?_, ?_, ?_⟩
    · intro hps
      rw [show v.queues.peerSettings = false from hps] at hp
      cases hp
    · rw [granted_accept, ← h.limit]
      rfl
    · rw [granted_accept_zero _ _ _ rfl]
      exact h.initial
    · intro id
      rw [granted_accept_zero _ _ _ rfl]
      exact h.stream_le id
    · intro id hid
      rw [granted_accept_zero _ _ _ rfl]
      exact h.stream_eq id hid
    · intro id hid
      rw [granted_accept_zero _ _ _ rfl]
      exact h.fresh id hid
  | maxStreamData streamId maximum hp hmem =>
    have hother : ∀ id, id ≠ streamId.intoInner →
        (Frame.maxStreamData streamId maximum).streamGrant id = 0 := fun id hid => if_neg (Ne.symm hid)
    have hself : (Frame.maxStreamData streamId maximum).streamGrant streamId.intoInner =
        maximum.intoInner := if_pos rfl
    refine ⟨h.before, ?_, ?_, ?_, ?_, ?_⟩
    · rw [granted_accept_zero _ _ _ rfl]
      exact h.limit
    · rw [granted_accept_zero _ _ _ rfl]
      exact h.initial
    · intro id
      by_cases hid : id = streamId.intoInner
      · subst hid
        rw [granted_accept, hself, ← h.stream_eq _ hmem]
        simp [Sender.setSend]
      · rw [granted_accept_zero _ _ _ (hother id hid)]
        simpa [Sender.setSend, hid] using h.stream_le id
    · intro id hm
      by_cases hid : id = streamId.intoInner
      · subst hid
        rw [granted_accept, hself, ← h.stream_eq _ hmem]
        simp [Sender.setSend]
      · rw [granted_accept_zero _ _ _ (hother id hid)]
        simpa [Sender.setSend, hid] using h.stream_eq id hm
    · intro id hn
      have hid : id ≠ streamId.intoInner := by
        intro he
        rw [he] at hn
        exact hn (hv.opened _ hmem)
      rw [granted_accept_zero _ _ _ (hother id hid)]
      exact h.fresh id hn
  | lateCredit streamId maximum ho hnm =>
    have hother : ∀ id, id ≠ streamId.intoInner →
        (Frame.maxStreamData streamId maximum).streamGrant id = 0 := fun id hid => if_neg (Ne.symm hid)
    refine ⟨h.before, ?_, ?_, ?_, ?_, ?_⟩
    · rw [granted_accept_zero _ _ _ rfl]
      exact h.limit
    · rw [granted_accept_zero _ _ _ rfl]
      exact h.initial
    · intro id
      rw [granted_accept]
      exact (h.stream_le id).trans (Nat.le_max_left _ _)
    · intro id hm
      rw [granted_accept_zero _ _ _ (hother id fun he => hnm (he ▸ hm))]
      exact h.stream_eq id hm
    · intro id hn
      rw [granted_accept_zero _ _ _ (hother id fun he => hn (he ▸ ho))]
      exact h.fresh id hn
  | retire id =>
    refine h.keep grantless_nil rfl rfl rfl (fun _ => rfl) ?_ fun _ ho => ho
    exact fun j hj => .inl (List.mem_filter.mp hj).1

theorem reach_granted {isClient : Bool} (h : (machine l isClient).Reach v log) : v.Granted log := by
  refine h.invariant Granted ?_ fun v log evs v' hr hg hs => granted_step (reach_wf hr) hg hs
  intro v (hi : v = (Shared.new l isClient).sender)
  subst hi
  exact ⟨fun _ => ⟨rfl, rfl⟩, rfl, rfl, fun _ => le_refl _, fun _ _ => rfl, fun _ _ => rfl⟩

/-- The totals of a sender count the payload bytes it has emitted. -/
structure Spent (v : Sender) (log : List Event) : Prop where
  sent : v.queues.sent = (frameBytes (emitted log)).length
  stream : ∀ id, (v.send id).sent = (frameBytes ((emitted log).filter (Frame.sendsOn id))).length
  sent_le : v.queues.sent ≤ v.queues.peerLimit
  stream_le : ∀ id, (v.send id).sent ≤ max (v.send id).peerLimit v.queues.peerInitialStreamLimit

/-- Frames without stream bytes. -/
def Bare (log : List Event) : Prop := ∀ f ∈ emitted log, f.payload = []

theorem frameBytes_bare (frames : List Frame) (h : ∀ f ∈ frames, f.payload = []) : frameBytes frames = [] :=
  List.flatMap_eq_nil_iff.mpr h

/-- A step that emits no stream bytes and lowers no limit. -/
theorem Spent.keep (h : v.Spent log) (hev : Bare evs) (hq : v'.queues.sent = v.queues.sent)
    (hs : ∀ id, (v'.send id).sent = (v.send id).sent) (hl : v.queues.peerLimit ≤ v'.queues.peerLimit)
    (hi : v.queues.peerInitialStreamLimit ≤ v'.queues.peerInitialStreamLimit)
    (hsl : ∀ id, (v.send id).peerLimit ≤ (v'.send id).peerLimit) : v'.Spent (log ++ evs) := by
  refine ⟨?_, ?_, ?_, ?_⟩
  · rw [hq, h.sent, emitted_append, frameBytes_append, frameBytes_bare _ hev, List.append_nil]
  · intro id
    rw [hs, h.stream, emitted_append, List.filter_append, frameBytes_append,
      frameBytes_bare _ fun f hf => hev f (List.mem_filter.mp hf).1, List.append_nil]
  · rw [hq]
    exact h.sent_le.trans hl
  · intro id
    rw [hs]
    exact (h.stream_le id).trans (max_le_max (hsl id) hi)

theorem quiet_bare (log : List Event) (h : ∀ e ∈ log, e.Quiet) : Bare log := by
  intro f hf
  obtain ⟨e, he, hef⟩ := List.mem_filterMap.mp hf
  have hq := h e he
  cases e with
  | emitted g => exact hq.elim
  | _ => cases hef

theorem bare_of_none (log : List Event) (h : emitted log = []) : Bare log := by
  intro f hf
  rw [h] at hf
  cases hf

theorem bare_emitted (f : Frame) (h : f.payload = []) : Bare [.emitted f] := by
  intro g hg
  rw [show g = f from List.mem_singleton.mp hg]
  exact h

theorem takeCount_le (q : WriterQueues) (st : SendState) (c : OutboundChunk) :
    q.takeCount st c ≤ c.payload.length ∧ q.takeCount st c ≤ q.connCredit ∧
      q.takeCount st c ≤ q.streamCredit st := by
  unfold WriterQueues.takeCount
  exact ⟨Nat.min_le_left _ _,
    (Nat.min_le_right _ _).trans ((Nat.min_le_left _ _).trans (Nat.min_le_left _ _)),
    (Nat.min_le_right _ _).trans ((Nat.min_le_left _ _).trans (Nat.min_le_right _ _))⟩

/-- The limits are variable-length integers, so no total can wrap around. -/
theorem Granted.stream_max (h : v.Granted log) (id : Nat) :
    max (v.send id).peerLimit v.queues.peerInitialStreamLimit ≤ varIntMax := by
  refine max_le ((h.stream_le id).trans ?_) ?_
  · exact (granted_le_iff _ _ _).mpr fun f _ => (f.grants_le id).2.2
  · rw [h.initial]
    exact (granted_le_iff _ _ _).mpr fun f _ => (f.grants_le id).2.1

theorem Spent.dispatch (hv : v.WF l) (hg : v.Granted log) (h : v.Spent log) {id : Nat}
    {chunk : OutboundChunk} {rest : List OutboundChunk} (ready : List Nat)
    (hchunk : v.queues.chunksOf id = chunk :: rest) :
    (v.dispatch id chunk rest ready).Spent (log ++ [.emitted (v.dataFrame id chunk)]) := by
  obtain ⟨ho, hfit⟩ := hv.chunks id chunk (hchunk ▸ List.mem_cons_self)
  have hid : chunk.streamId.intoInner = id := by
    rw [hfit.streamId, VarInt.expect_intoInner _ (ho.le hv.ids)]
  obtain ⟨hlen, hconn, hstream⟩ := takeCount_le v.queues (v.send id) chunk
  have hsent := h.sent_le
  have hst := h.stream_le id
  have hmax := hg.stream_max id
  have hv64 := ReceiveWindow.varIntMax_lt
  unfold WriterQueues.connCredit at hconn
  unfold WriterQueues.streamCredit at hstream
  have hpay : (v.dataFrame id chunk).payload.length = v.queues.takeCount (v.send id) chunk := by
    simp [dataFrame, Frame.payload, hlen]
  have hwrap : ((v.send id).sent + v.queues.takeCount (v.send id) chunk) % 2 ^ 64 =
      (v.send id).sent + v.queues.takeCount (v.send id) chunk := Nat.mod_eq_of_lt (by omega)
  have hself : ((v.dispatch id chunk rest ready).send id).sent =
      (v.send id).sent + v.queues.takeCount (v.send id) chunk := by
    simp only [Sender.dispatch, setSend, Function.update_self, SendState.dispatch, hwrap]
  have hother : ∀ j, j ≠ id → (v.dispatch id chunk rest ready).send j = v.send j := fun j hj => by
    simp [Sender.dispatch, setSend, setQueues, hj]
  refine ⟨?_, ?_, ?_, ?_⟩
  · have he : emitted (log ++ [.emitted (v.dataFrame id chunk)]) = emitted log ++ [v.dataFrame id chunk] :=
      emitted_append _ _
    rw [he, frameBytes_append, frameBytes_singleton, List.length_append, hpay, ← h.sent]
    rfl
  · intro j
    have he : emitted (log ++ [.emitted (v.dataFrame id chunk)]) = emitted log ++ [v.dataFrame id chunk] :=
      emitted_append _ _
    rw [he, List.filter_append]
    by_cases hj : j = id
    · subst hj
      have hs : [v.dataFrame j chunk].filter (Frame.sendsOn j) = [v.dataFrame j chunk] := by
        simp [dataFrame, Frame.sendsOn, hid]
      rw [hs, frameBytes_append, frameBytes_singleton, List.length_append, hpay, ← h.stream j, hself]
    · have hs : [v.dataFrame id chunk].filter (Frame.sendsOn j) = [] := by
        simp [dataFrame, Frame.sendsOn, hid, Ne.symm hj]
      rw [hs, List.append_nil, ← h.stream j, hother j hj]
  · change v.queues.sent + v.queues.takeCount (v.send id) chunk ≤ v.queues.peerLimit
    omega
  · intro j
    by_cases hj : j = id
    · subst hj
      rw [hself]
      have hl : ((v.dispatch j chunk rest ready).send j).peerLimit = (v.send j).peerLimit := by
        simp [Sender.dispatch, setSend, SendState.dispatch]
      rw [hl]
      change _ ≤ max _ v.queues.peerInitialStreamLimit
      omega
    · rw [hother j hj]
      exact h.stream_le j

theorem Spent.same (h : v.Spent log) (hev : Bare evs) (q : WriterQueues) (hs : q.sent = v.queues.sent)
    (hl : q.peerLimit = v.queues.peerLimit)
    (hi : q.peerInitialStreamLimit = v.queues.peerInitialStreamLimit) : (v.setQueues q).Spent (log ++ evs) :=
  h.keep hev hs (fun _ => rfl) (le_of_eq hl.symm) (le_of_eq hi.symm) fun _ => le_refl _

theorem Spent.setSend (h : v.Spent log) (id : Nat) (st : SendState) (hs : st.sent = (v.send id).sent)
    (hl : (v.send id).peerLimit ≤ st.peerLimit) (hev : Bare evs) : (v.setSend id st).Spent (log ++ evs) := by
  refine h.keep hev rfl ?_ (le_refl _) (le_refl _) ?_
  · intro j
    by_cases hj : j = id
    · subst hj
      simp [Sender.setSend, hs]
    · simp [Sender.setSend, hj]
  · intro j
    by_cases hj : j = id
    · subst hj
      simp [Sender.setSend, hl]
    · simp [Sender.setSend, hj]

theorem Spent.update (h : v.Spent log) (hev : Bare evs) (q : WriterQueues) (id : Nat) (st : SendState)
    (hs : q.sent = v.queues.sent) (hl : q.peerLimit = v.queues.peerLimit)
    (hi : q.peerInitialStreamLimit = v.queues.peerInitialStreamLimit)
    (hst : st.sent = (v.send id).sent) (hsl : st.peerLimit = (v.send id).peerLimit) :
    ((v.setQueues q).setSend id st).Spent (log ++ evs) := by
  have hk := (h.same hev q hs hl hi).setSend id st hst (le_of_eq hsl.symm) (bare_of_none [] rfl)
  rwa [List.append_nil] at hk

theorem Spent.create (hv : v.WF l) (h : v.Spent log) (hev : Bare evs) (ids : Ids) {id : Nat}
    (hn : ¬ v.ids.Opened id) : (v.create ids id).Spent (log ++ evs) := by
  have hsend : ∀ j, (v.create ids id).send j = v.send j := by
    intro j
    by_cases hj : j = id
    · subst hj
      simp [Sender.create, hv.fresh j hn]
    · simp [Sender.create, hj]
  exact h.keep hev rfl (fun j => by rw [hsend j]) (le_refl _) (le_refl _) fun j => by rw [hsend j]

theorem spent_step (hv : v.WF l) (hg : v.Granted log) (h : v.Spent log) (hs : SendStep l v evs v') :
    v'.Spent (log ++ evs) := by
  have hnil : Bare [] := bare_of_none [] rfl
  cases hs with
  | quiet _ hq => exact h.same (quiet_bare evs hq) v.queues rfl rfl rfl
  | halt _ hq =>
    exact h.keep (quiet_bare evs hq) rfl (fun _ => rfl) (le_refl _) (le_refl _) fun _ => le_refl _
  | openLocal hid hclosed hclosing =>
    have hc := Spent.create hv h hnil v.ids.takeLocal (Ids.not_opened_nextLocal hv.ids)
    rw [List.append_nil] at hc
    exact hc.same hnil _ rfl rfl rfl
  | openRemote _ hid hlog =>
    refine Spent.create hv h (bare_of_none _ ?_) _ (Ids.not_opened_nextRemote hv.ids)
    rcases hlog with rfl | ⟨error, rfl⟩ <;> rfl
  | pend id pending hid hold hnew => exact h.setSend id _ rfl (le_refl _) hnil
  | enqueue id w hw hstage hclosing hterm =>
    exact h.update (bare_of_none _ rfl) _ id _ rfl rfl rfl rfl rfl
  | finish id w hw hstage => exact h.setSend id _ rfl (le_refl _) hnil
  | reset id errorCode _ hid hdisp hres hclosing hlog =>
    refine h.update (bare_of_none _ ?_) _ id _ rfl rfl rfl rfl rfl
    rcases hlog with rfl | rfl <;> rfl
  | resetAgain id _ hd hlog =>
    refine h.same (bare_of_none _ ?_) v.queues rfl rfl rfl
    rcases hlog with rfl | rfl <;> rfl
  | stopRetired => exact h.same (bare_of_none _ rfl) v.queues rfl rfl rfl
  | ping => exact h.same hnil _ rfl rfl rfl
  | stop => exact h.same (bare_of_none _ rfl) _ rfl rfl rfl
  | close code reason fitted hcode hclosed hfit =>
    refine h.keep (bare_of_none _ rfl) ?_ (fun _ => rfl) (le_of_eq ?_) (le_of_eq ?_) fun _ => le_refl _
    all_goals cases hz : code.intoInner == 0 <;> rfl
  | shutdown _ hq =>
    exact h.keep (quiet_bare evs hq) rfl (fun _ => rfl) (le_refl _) (le_refl _) fun _ => le_refl _
  | pop f control hcut hc =>
    refine h.same (bare_emitted f ?_) _ rfl rfl rfl
    have hf := hv.control f (hc ▸ List.mem_cons_self)
    cases f <;> first | rfl | exact hf.elim
  | grant f hcut hc hf =>
    refine h.same (bare_emitted f ?_) _ rfl rfl rfl
    cases f <;> first | rfl | exact hf.elim
  | data id chunk rest skipped later hcut hturn hready hskip hchunk hel =>
    exact Spent.dispatch hv hg h _ hchunk
  | turn => exact h.same hnil _ rfl rfl rfl
  | closeFrame f hclosing hdrain hf =>
    obtain ⟨-, code, reason, rfl⟩ := closeFrame_inv hv f hf
    exact h.same (bare_emitted _ rfl) _ rfl rfl rfl
  | settings data streamData frameSize hp hmin hmax =>
    obtain ⟨hl, hi⟩ := hg.before hp
    refine h.keep (bare_of_none _ rfl) rfl (fun _ => rfl) ?_ ?_ fun _ => le_refl _
    · rw [hl]
      exact Nat.zero_le _
    · rw [hi]
      exact Nat.zero_le _
  | maxData maximum hp =>
    exact h.keep (bare_of_none _ rfl) rfl (fun _ => rfl) (Nat.le_max_left _ _) (le_refl _) fun _ => le_refl _
  | maxStreamData streamId maximum hp hmem =>
    exact h.setSend streamId.intoInner _ rfl (Nat.le_max_left _ _) (bare_of_none _ rfl)
  | lateCredit => exact h.same (bare_of_none _ rfl) v.queues rfl rfl rfl
  | retire id => exact h.keep hnil rfl (fun _ => rfl) (le_refl _) (le_refl _) fun _ => le_refl _

theorem reach_spent {isClient : Bool} (h : (machine l isClient).Reach v log) : v.Spent log := by
  refine h.invariant Spent ?_ fun v log evs v' hr hp hs => spent_step (reach_wf hr) (reach_granted hr) hp hs
  intro v (hi : v = (Shared.new l isClient).sender)
  subst hi
  exact ⟨rfl, fun _ => rfl, le_refl _, fun _ => Nat.zero_le _⟩

end Sender
end Muxtls
